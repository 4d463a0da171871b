import Prisma.IR.Basic

namespace Prisma.Decoder

-- Opcode categories for the one-byte dispatch.
inductive OneByteOpcode
  | movRmR8 | movRmR | movR8Rm | movRRm | popRm | lea | movRI | movR8I8 | movMoffsToAcc
  | movAccToMoffs | movsb | cmpsb | stosb | lodsb | scasb | addRmR | addRmR8 | addRRm | addR8Rm
  | adcRmR | adcRmR8 | adcRRm | adcR8Rm | sbbRmR | sbbRmR8 | sbbRRm | sbbR8Rm | accImm | aluRmImm
  | aluRmImm8 | group2 | subRmR | subRmR8 | subRRm | subR8Rm | andRmR | andRmR8 | andR8Rm
  | andRRm | orRmR | orRmR8 | orR8Rm | orRRm | xorRmR | xorRmR8 | xorR8Rm | xorRRm | cmpRmR
  | cmpRmR8 | cmpR8Rm | cmpRRm | testRmR | testRmR8 | legacyInvalidTrap | legacyInvalidImm8
  | movsxd | imulRmImm | imulRmImm8 | movRmImm | callRel32 | nop | fwait | cld | xchgAcc
  | signExtendAcc | signExtendAccToDx | xlat | x87D9 | x87DB | ret | retImm16 | iretTrap | enter
  | leave | int3 | intImm8 | jumpRel8 | loopRel8 | jrcxzRel8 | jumpRel32 | ioTrapImm8 | ioTrapDx
  | condJumpRel8 | xchg | pushReg | pushImm | popReg | icebp | hlt | privilegedTrap | group3
  | group4 | group5 | pushfq | popfq | sahf | lahf | twoBytePrefix | unsupported
  deriving DecidableEq, Repr

-- Opcode categories for the dispatch after the escape byte 0F.
inductive TwoByteOpcode
  | descriptorGroup | systemGroup | systemTrap | systemTrapRm | syscall | ud2 | cacheTrap | nopRm
  | rdtsc | prefetch | prefetchw | mmxStateNoop | endbr | cmov | condJumpRel32 | setcc | cpuid
  | movzxI8 | movzxI16 | undefinedRm | movsxI8 | movsxI16 | imulRm | popcnt | xadd | movnti
  | fence | lzcnt | tzcnt | bswap | cmpxchg | cmpxchg8b16b | btGroup | threeByte0F38
  | threeByte0F3A | unsupported
  deriving DecidableEq, Repr

def classifyOneByte (opcode : U8) : OneByteOpcode :=
  match opcode with
  | 0x88 => .movRmR8
  | 0x89 => .movRmR
  | 0x8A => .movR8Rm
  | 0x8B => .movRRm
  | 0x8F => .popRm
  | 0x8D => .lea
  | 0xA0 | 0xA1 => .movMoffsToAcc
  | 0xA2 | 0xA3 => .movAccToMoffs
  | 0xA4 | 0xA5 => .movsb
  | 0xA6 | 0xA7 => .cmpsb
  | 0xAA | 0xAB => .stosb
  | 0xAC | 0xAD => .lodsb
  | 0xAE | 0xAF => .scasb
  | 0xB0 | 0xB1 | 0xB2 | 0xB3 | 0xB4 | 0xB5 | 0xB6 | 0xB7 => .movR8I8
  | 0xB8 | 0xB9 | 0xBA | 0xBB | 0xBC | 0xBD | 0xBE | 0xBF => .movRI
  | 0x04 | 0x05 | 0x0C | 0x0D | 0x14 | 0x15 | 0x1C | 0x1D | 0x24 | 0x25 | 0x2C | 0x2D | 0x34
  | 0x35 | 0x3C | 0x3D | 0xA8 | 0xA9 => .accImm
  | 0x00 => .addRmR8
  | 0x01 => .addRmR
  | 0x02 => .addR8Rm
  | 0x03 => .addRRm
  | 0x10 => .adcRmR8
  | 0x11 => .adcRmR
  | 0x12 => .adcR8Rm
  | 0x13 => .adcRRm
  | 0x08 => .orRmR8
  | 0x0A => .orR8Rm
  | 0x0B => .orRRm
  | 0x80 | 0x81 => .aluRmImm
  | 0x83 => .aluRmImm8
  | 0xC0 | 0xC1 | 0xD0 | 0xD1 | 0xD2 | 0xD3 => .group2
  | 0x20 => .andRmR8
  | 0x29 => .subRmR
  | 0x28 => .subRmR8
  | 0x2A => .subR8Rm
  | 0x2B => .subRRm
  | 0x18 => .sbbRmR8
  | 0x19 => .sbbRmR
  | 0x1A => .sbbR8Rm
  | 0x1B => .sbbRRm
  | 0x21 => .andRmR
  | 0x22 => .andR8Rm
  | 0x23 => .andRRm
  | 0x09 => .orRmR
  | 0x30 => .xorRmR8
  | 0x31 => .xorRmR
  | 0x32 => .xorR8Rm
  | 0x33 => .xorRRm
  | 0x38 => .cmpRmR8
  | 0x39 => .cmpRmR
  | 0x3A => .cmpR8Rm
  | 0x3B => .cmpRRm
  | 0x84 => .testRmR8
  | 0x85 => .testRmR
  | 0x06 | 0x07 | 0x0E | 0x16 | 0x17 | 0x1E | 0x1F | 0x27 | 0x2F | 0x37 | 0x3F | 0x60 | 0x61
  | 0x9A | 0xCE | 0xD6 | 0xEA => .legacyInvalidTrap
  | 0xD4 | 0xD5 => .legacyInvalidImm8
  | 0x63 => .movsxd
  | 0x69 => .imulRmImm
  | 0x6B => .imulRmImm8
  | 0xC6 | 0xC7 => .movRmImm
  | 0xE8 => .callRel32
  | 0x90 => .nop
  | 0x9C => .pushfq
  | 0x9D => .popfq
  | 0x9E => .sahf
  | 0x9F => .lahf
  | 0x9B => .fwait
  | 0x91 | 0x92 | 0x93 | 0x94 | 0x95 | 0x96 | 0x97 => .xchgAcc
  | 0x98 => .signExtendAcc
  | 0x99 => .signExtendAccToDx
  | 0xD7 => .xlat
  | 0xD9 => .x87D9
  | 0xDB => .x87DB
  | 0xC3 => .ret
  | 0xC2 => .retImm16
  | 0xCF => .iretTrap
  | 0xC8 => .enter
  | 0xC9 => .leave
  | 0xCC => .int3
  | 0xCD => .intImm8
  | 0xE2 => .loopRel8
  | 0xE3 => .jrcxzRel8
  | 0xE4 | 0xE5 | 0xE6 | 0xE7 => .ioTrapImm8
  | 0xE9 => .jumpRel32
  | 0xEB => .jumpRel8
  | 0xEC | 0xED | 0xEE | 0xEF => .ioTrapDx
  | 0x70 | 0x71 | 0x72 | 0x73 | 0x74 | 0x75 | 0x76 | 0x77 | 0x78 | 0x79 | 0x7A | 0x7B | 0x7C
  | 0x7D | 0x7E | 0x7F => .condJumpRel8
  | 0x86 | 0x87 => .xchg
  | 0x50 | 0x51 | 0x52 | 0x53 | 0x54 | 0x55 | 0x56 | 0x57 => .pushReg
  | 0x68 | 0x6A => .pushImm
  | 0x58 | 0x59 | 0x5A | 0x5B | 0x5C | 0x5D | 0x5E | 0x5F => .popReg
  | 0xF1 => .icebp
  | 0xF4 => .hlt
  | 0xFA | 0xFB => .privilegedTrap
  | 0xFC => .cld
  | 0xF6 | 0xF7 => .group3
  | 0xFE => .group4
  | 0xFF => .group5
  | 0x0F => .twoBytePrefix
  | _ => .unsupported

def classifyTwoByte (opcode : U8) : TwoByteOpcode :=
  match opcode with
  | 0x00 => .descriptorGroup
  | 0x01 => .systemGroup
  | 0x06 | 0x07 => .systemTrap
  | 0x05 => .syscall
  | 0x08 | 0x09 => .cacheTrap
  | 0x0B => .ud2
  | 0x0D => .prefetchw
  | 0x0E => .mmxStateNoop
  | 0x18 => .prefetch
  | 0x1E => .endbr
  | 0x1F => .nopRm
  | 0x20 | 0x21 | 0x22 | 0x23 => .systemTrapRm
  | 0x37 => .systemTrap
  | 0x30 | 0x32 | 0x33 | 0x34 | 0x35 => .systemTrap
  | 0x31 => .rdtsc
  | 0x40 | 0x41 | 0x42 | 0x43 | 0x44 | 0x45 | 0x46 | 0x47 | 0x48 | 0x49 | 0x4A | 0x4B | 0x4C
  | 0x4D | 0x4E | 0x4F => .cmov
  | 0x77 => .mmxStateNoop
  | 0x78 | 0x79 => .systemTrapRm
  | 0x80 | 0x81 | 0x82 | 0x83 | 0x84 | 0x85 | 0x86 | 0x87 | 0x88 | 0x89 | 0x8A | 0x8B | 0x8C
  | 0x8D | 0x8E | 0x8F => .condJumpRel32
  | 0x90 | 0x91 | 0x92 | 0x93 | 0x94 | 0x95 | 0x96 | 0x97 | 0x98 | 0x99 | 0x9A | 0x9B | 0x9C
  | 0x9D | 0x9E | 0x9F => .setcc
  | 0xA2 => .cpuid
  | 0xAA => .systemTrap
  | 0xB6 => .movzxI8
  | 0xB7 => .movzxI16
  | 0xB9 | 0xFF => .undefinedRm
  | 0xAF => .imulRm
  | 0xBE => .movsxI8
  | 0xBF => .movsxI16
  | 0xB8 => .popcnt
  | 0xAE => .fence
  | 0xC0 | 0xC1 => .xadd
  | 0xC3 => .movnti
  | 0xBD => .lzcnt
  | 0xBC => .tzcnt
  | 0xB0 | 0xB1 => .cmpxchg
  | 0xBA => .btGroup
  | 0xC7 => .cmpxchg8b16b
  | 0xC8 | 0xC9 | 0xCA | 0xCB | 0xCC | 0xCD | 0xCE | 0xCF => .bswap
  | 0x38 => .threeByte0F38
  | 0x3A => .threeByte0F3A
  | _ => .unsupported

end Prisma.Decoder
