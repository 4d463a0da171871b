import Prisma.Orchestrator.Theorems.BackedAddressSpace

-- Where the bytes are kept cannot be observed by calls that stay inside the window.

namespace Prisma

def GuestArena.Inside (arena : GuestArena) (addr : U64) (len : Nat) : Prop :=
  arena.base.toNat ≤ addr.toNat ∧ addr.toNat + len ≤ arena.base.toNat + arena.bytes.length

instance {arena : GuestArena} {addr : U64} {len : Nat} : Decidable (arena.Inside addr len) :=
  inferInstanceAs (Decidable (_ ∧ _))

namespace MemCall

-- The range that a call names lies in the window. The placement of `mmapAnon` is its own choice.
def Within (arena : GuestArena) : MemCall → Prop
  | map base len _ => arena.Inside base len.toNat
  | mapWithBytes base bytes _ => arena.Inside base bytes.length
  | unmap _ => True
  | read addr len => arena.Inside addr len.toNat
  | write addr src => arena.Inside addr src.length
  | ensureWritable addr len => arena.Inside addr len.toNat
  | mmapAnon .. => False
  | resize base newSize => arena.Inside base newSize.toNat
  | mprotect .. => True

instance {arena : GuestArena} {call : MemCall} : Decidable (call.Within arena) := by
  cases call <;> unfold Within <;> infer_instance

theorem Within.allocates_lt {call : MemCall} (h : call.Within arena) :
    call.allocates < 2 ^ 63 := by
  have := arena.fits
  cases call <;> simp only [Within, GuestArena.Inside, allocates] at h ⊢ <;> omega

def run : BackedAddressSpace → List MemCall → Option (List MemResult × BackedAddressSpace)
  | space, [] => some ([], space)
  | space, call :: calls => do
    let (result, space) ← call.apply space
    let (results, space) ← run space calls
    return (result :: results, space)

end MemCall

variable {arena : GuestArena} {call : MemCall} {calls : List MemCall} {base addr len : U64}

namespace MappedMemory

variable {mem : MappedMemory} {room : U64 → Nat → Bool} {prot : Protection} {bytes : List U8}

theorem insert_room (h : room base bytes.length) :
    mem.insert room base prot bytes = mem.insert (fun _ _ => true) base prot bytes := by
  rw [insert, insert, h]

theorem resize_room {newSize : U64} (h : room base newSize.toNat) :
    mem.resize room base newSize = mem.resize (fun _ _ => true) base newSize := by
  rw [resize, resize, h]

theorem apply_room (hroom : ∀ base n, arena.Inside base n → room base n)
    (h : call.Within arena) : mem.apply room call = mem.apply (fun _ _ => true) call := by
  cases call with
  | map base len =>
    have hlen : room base (List.replicate len.toNat (0 : U8)).length := by
      rw [List.length_replicate]
      exact hroom _ _ h
    exact congrArg (spaceResult _) (insert_room hlen)
  | mapWithBytes => exact congrArg (spaceResult _) (insert_room (hroom _ _ h))
  | resize => exact congrArg (spaceResult _) (resize_room (hroom _ _ h))
  | mmapAnon => exact h.elim
  | unmap | read | write | ensureWritable | mprotect => rfl

end MappedMemory

namespace BackedAddressSpace

-- Two spaces that look the same, one of them with the bytes in the arena.
structure Alike (arena : GuestArena) (owned placed : BackedAddressSpace) : Prop where
  soundOwned : owned.Sound
  soundPlaced : placed.Sound
  view : owned.view = placed.view
  roomOwned : owned.room = fun _ _ => true
  roomPlaced : ∀ base n, arena.Inside base n → placed.room base n

variable {owned placed space : BackedAddressSpace}

theorem Alike.new : Alike arena new ⟨[], some arena⟩ where
  soundOwned := sound_new
  soundPlaced := sound_arena
  view := rfl
  roomOwned := funext fun _ => funext fun _ => room_owned rfl
  roomPlaced _ _ h := by
    rw [room_arena rfl]
    exact GuestArena.isSome_offset.mpr h

theorem Alike.apply (h : Alike arena owned placed) (hcall : call.Within arena) :
    ∃ result owned' placed', call.apply owned = some (result, owned') ∧
      call.apply placed = some (result, placed') ∧ Alike arena owned' placed' := by
  have hsmall := Nat.not_le.mpr hcall.allocates_lt
  have ⟨⟨result, owned'⟩, howned, hfst, hview, hsound, hroom⟩ :=
    (apply_refines h.soundOwned call).resolve_right fun hp => hsmall hp.right
  have ⟨⟨result', placed'⟩, hplaced, hfst', hview', hsound', hroom'⟩ :=
    (apply_refines h.soundPlaced call).resolve_right fun hp => hsmall hp.right
  have hspec : owned.view.apply owned.room call = placed.view.apply placed.room call := by
    rw [h.view, h.roomOwned, MappedMemory.apply_room h.roomPlaced hcall]
  rw [hspec] at hfst hview
  cases hfst.trans hfst'.symm
  refine ⟨result, owned', placed', howned, hplaced, hsound, hsound', hview.trans hview'.symm, ?_, ?_⟩
  · exact hroom.trans h.roomOwned
  · intro base n hn
    rw [hroom']
    exact h.roomPlaced base n hn

theorem Alike.run (h : Alike arena owned placed) (hcalls : ∀ call ∈ calls, call.Within arena) :
    ∃ results owned' placed', MemCall.run owned calls = some (results, owned') ∧
      MemCall.run placed calls = some (results, placed') ∧ Alike arena owned' placed' := by
  induction calls generalizing owned placed with
  | nil => exact ⟨[], owned, placed, rfl, rfl, h⟩
  | cons call calls hi =>
    have ⟨hcall, hcalls⟩ := List.forall_mem_cons.mp hcalls
    have ⟨result, owned', placed', ho, hp, h'⟩ := h.apply hcall
    have ⟨results, owned'', placed'', hos, hps, h''⟩ := hi h' hcalls
    refine ⟨result :: results, owned'', placed'', ?_, ?_, h''⟩
    · simp [MemCall.run, ho, hos]
    · simp [MemCall.run, hp, hps]

theorem Alike.read (h : Alike arena owned placed) : owned.read addr len = placed.read addr len := by
  have hread : (owned.read addr len).run = (placed.read addr len).run := by
    rw [read_refines h.soundOwned, read_refines h.soundPlaced, h.view]
  exact hread

-- The two ways to keep the bytes give the same results, call by call, and the same bytes.
theorem run_arena_eq_owned {pageSize windowSize : Nat} {windowBase : U64}
    (hnew : withArena pageSize windowBase windowSize = some space)
    (harena : space.arena = some arena) (hcalls : ∀ call ∈ calls, call.Within arena) :
    ∃ results owned placed, MemCall.run new calls = some (results, owned) ∧
      MemCall.run space calls = some (results, placed) ∧
      ∀ addr len, owned.read addr len = placed.read addr len := by
  have ⟨_, _, he⟩ := Option.map_eq_some_iff.mp hnew
  subst he
  cases harena
  have ⟨results, owned, placed, ho, hp, h⟩ := Alike.new.run hcalls
  exact ⟨results, owned, placed, ho, hp, fun _ _ => h.read⟩

theorem run_arena_eq_owned_write :
    ∃ space results owned placed, withArena 16 0x1000 16 = some space ∧
      MemCall.run new [.map 0x1000 2 .readWrite, .write 0x1001 [7], .read 0x1000 2] =
        some (results, owned) ∧
      MemCall.run space [.map 0x1000 2 .readWrite, .write 0x1001 [7], .read 0x1000 2] =
        some (results, placed) := by
  have ⟨results, owned, placed, howned, hplaced, _⟩ :=
    @run_arena_eq_owned _ [.map 0x1000 2 .readWrite, .write 0x1001 [7], .read 0x1000 2] _ 16 16
      0x1000 rfl rfl (by decide)
  exact ⟨_, results, owned, placed, rfl, howned, hplaced⟩

end BackedAddressSpace

end Prisma
