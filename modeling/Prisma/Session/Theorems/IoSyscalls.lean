import Prisma.Orchestrator.Theorems.GuestWrites
import Prisma.Runtime.Theorems.GuestStructs
import Prisma.Session.IoSyscalls

namespace Prisma

open GuestStruct GuestMem LawfulGuestMem Extent List LittleEndian

instance : Extent Iovec where
  lo v := v.base.toNat
  hi v := v.base.toNat + v.len.toNat

namespace Iovec

variable {bytes : List U8} {v : Iovec} {n : Nat} {x : U64}

theorem fromGuestBytes_toGuestBytes (h : 16 ≤ bytes.length) :
    ∃ v : Iovec, fromGuestBytes bytes = some v ∧ toGuestBytes v = bytes.take 16 := by
  refine ⟨⟨field 8 bytes 0, field 8 bytes 8⟩, if_pos h, ?_⟩
  show fieldBytes 8 (field 8 bytes 0) ++ fieldBytes 8 (field 8 bytes 8) = _
  rw [fieldBytes_field (by omega), fieldBytes_field (by omega), List.slice, List.slice,
    drop_zero, ← take_add]

theorem length_toGuestBytes : (toGuestBytes v).length = 16 := by
  show (fieldBytes 8 v.base ++ fieldBytes 8 v.len).length = 16
  rw [length_append, fieldBytes, fieldBytes, length_encode,
    length_encode]

theorem toGuestBytes_inj (h : toGuestBytes u = toGuestBytes v) : u = v := by
  have ⟨hbase, hlen⟩ := append_inj h
    (by rw [fieldBytes, fieldBytes, length_encode, length_encode])
  cases u
  cases v
  exact Iovec.mk.injEq .. ▸ ⟨fieldBytes_inj hbase, fieldBytes_inj hlen⟩

theorem flatMap_toGuestBytes_inj {iovs iovs' : List Iovec} (hl : iovs.length = iovs'.length)
    (h : iovs.flatMap toGuestBytes = iovs'.flatMap toGuestBytes) : iovs = iovs' := by
  induction iovs generalizing iovs' with
  | nil => exact (eq_nil_of_length_eq_zero hl.symm).symm
  | cons u iovs hi =>
    match iovs' with
    | u' :: iovs' =>
      rw [flatMap_cons, flatMap_cons] at h
      have ⟨hu, hrest⟩ := append_inj h
        (length_toGuestBytes.trans length_toGuestBytes.symm)
      rw [toGuestBytes_inj hu, hi (Nat.succ.inj hl) hrest]

-- The first addresses of a buffer.
def addresses (v : Iovec) (n : Nat) : List U64 :=
  (List.range n).map fun k => v.base + BitVec.ofNat 64 k

theorem length_addresses : (v.addresses n).length = n := by
  rw [addresses, length_map, length_range]

theorem take_addresses : (v.addresses n).take m = v.addresses (min m n) := by
  rw [addresses, addresses, ← map_take, take_range]

theorem mem_addresses (h : v.base.toNat + n ≤ 2 ^ 64) :
    x ∈ v.addresses n ↔ MappedMemory.InRange v.base n x := by
  unfold addresses MappedMemory.InRange
  constructor
  · intro hx
    have ⟨k, hk, he⟩ := mem_map.mp hx
    have hlt := mem_range.mp hk
    rw [← he, AddressSpace.toNat_add_ofNat (by omega)]
    omega
  · intro ⟨hlo, hhi⟩
    refine mem_map.mpr ⟨x.toNat - v.base.toNat, mem_range.mpr (by omega), ?_⟩
    apply BitVec.eq_of_toNat_eq
    rw [AddressSpace.toNat_add_ofNat (by omega)]
    omega

theorem map_give_addresses {byte : U64 → Option U8} (h : v.base.toNat + bytes.length ≤ 2 ^ 64) :
    (v.addresses bytes.length).map (MappedMemory.give byte v.base bytes) = bytes.map some := by
  refine ext_getElem? fun k => ?_
  rw [addresses, map_map, List.getElem?_map, List.getElem?_map]
  by_cases hk : k < bytes.length
  case pos =>
    have hx := AddressSpace.toNat_add_ofNat (show v.base.toNat + k < 2 ^ 64 by omega)
    have hin : MappedMemory.InRange v.base bytes.length (v.base + BitVec.ofNat 64 k) := by
      unfold MappedMemory.InRange
      omega
    rw [List.getElem?_range hk, List.getElem?_eq_getElem hk, Option.map_some, Option.map_some,
      Function.comp, MappedMemory.give, if_pos hin, hx, Nat.add_sub_cancel_left,
      List.getElem?_eq_getElem hk]
  case neg =>
    rw [List.getElem?_eq_none (by simpa using hk), List.getElem?_eq_none (by omega)]
    rfl

end Iovec

namespace IoSyscalls

-- The addresses of the buffers one after the other.
def addresses (iovs : List Iovec) : List U64 :=
  iovs.flatMap fun v => v.addresses v.len.toNat

-- The writes that put these bytes into the buffers.
def pieces (bytes : List U8) : List Iovec → List GuestWrite
  | [] => []
  | v :: iovs =>
    if bytes = [] then []
    else ⟨v.base, bytes.take v.len.toNat⟩ :: pieces (bytes.drop v.len.toNat) iovs

section Pieces

variable {byte : U64 → Option U8} {bytes : List U8} {iovs : List Iovec}

-- What the writes leave at each address.
structure Scattered (byte byte' : U64 → Option U8) (iovs : List Iovec) (bytes : List U8) : Prop where
  first : ((addresses iovs).take bytes.length).map byte' = bytes.map some
  rest : ∀ x ∉ (addresses iovs).take bytes.length, byte' x = byte x

theorem addresses_cons : addresses (v :: iovs) = v.addresses v.len.toNat ++ addresses iovs :=
  flatMap_cons

theorem take_addresses :
    (addresses (v :: iovs)).take n =
      v.addresses (min n v.len.toNat) ++ (addresses iovs).take (n - v.len.toNat) := by
  rw [addresses_cons, take_append, Iovec.take_addresses, Iovec.length_addresses]

theorem not_mem_addresses (hfits : ∀ u ∈ v :: iovs, u.base.toNat + u.len.toNat ≤ 2 ^ 64)
    (hapart : (v :: iovs).Pairwise Apart) (hn : n ≤ v.len.toNat) (hx : x ∈ v.addresses n) :
    x ∉ addresses iovs := by
  intro hx'
  have ⟨u, hu, hxu⟩ := mem_flatMap.mp hx'
  have hv := hfits v (.head _)
  have ⟨hlo, hhi⟩ := (Iovec.mem_addresses (by omega)).mp hx
  have hcu : Covers u x.toNat := (Iovec.mem_addresses (hfits u (.tail _ hu))).mp hxu
  refine (pairwise_cons.mp hapart).left u hu x.toNat ?_ hcu
  exact ⟨hlo, Nat.lt_of_lt_of_le hhi (Nat.add_le_add_left hn _)⟩

theorem giveAll_pieces (hfits : ∀ v ∈ iovs, v.base.toNat + v.len.toNat ≤ 2 ^ 64)
    (hapart : iovs.Pairwise Apart) (hn : bytes.length ≤ (addresses iovs).length) :
    Scattered byte (GuestWrite.giveAll byte (pieces bytes iovs)) iovs bytes := by
  induction iovs generalizing byte bytes with
  | nil =>
    cases eq_nil_of_length_eq_zero (Nat.le_zero.mp hn)
    exact ⟨rfl, fun _ _ => rfl⟩
  | cons v iovs hi =>
    by_cases he : bytes = []
    case pos =>
      subst he
      exact ⟨rfl, fun _ _ => rfl⟩
    case neg =>
      have hv := hfits v (.head _)
      have hdrop : (bytes.drop v.len.toNat).length = bytes.length - v.len.toNat :=
        length_drop
      have htake : (bytes.take v.len.toNat).length = min bytes.length v.len.toNat := by
        rw [length_take, Nat.min_comm]
      rw [addresses_cons, length_append, Iovec.length_addresses] at hn
      have ⟨hfirst, hrest⟩ := @hi (MappedMemory.give byte v.base (bytes.take v.len.toNat))
        (bytes.drop v.len.toNat) (fun u hu => hfits u (.tail _ hu)) hapart.of_cons (by omega)
      rw [hdrop] at hfirst hrest
      rw [pieces, if_neg he]
      constructor
      -- The later writes go elsewhere, so the first piece is as it was written.
      · rw [take_addresses, map_append, GuestWrite.giveAll, hfirst]
        have hpiece : (v.addresses (min bytes.length v.len.toNat)).map
            (GuestWrite.giveAll (MappedMemory.give byte v.base (bytes.take v.len.toNat))
              (pieces (bytes.drop v.len.toNat) iovs)) = (bytes.take v.len.toNat).map some := by
          rw [← @Iovec.map_give_addresses (bytes.take v.len.toNat) v byte (by omega), htake]
          refine map_congr_left fun x hx => hrest x fun hx' => ?_
          exact not_mem_addresses hfits hapart (by omega) hx (mem_of_mem_take hx')
        rw [hpiece, ← map_append, take_append_drop]
      · intro x hx
        rw [take_addresses, mem_append, not_or] at hx
        rw [GuestWrite.giveAll, hrest x hx.right]
        refine if_neg fun hin => hx.left ?_
        rw [htake] at hin
        exact (Iovec.mem_addresses (by omega)).mpr hin

end Pieces

section Reads

variable {H F E M : Type} [GuestMem M] [LawfulGuestMem M] {mem mem' : M} {host : H}
  {iovs : List Iovec} {bytes : List U8} {iovPtr : U64} {iovcnt : U32}

theorem scatter_follows {off : Nat} :
    Follows .fault (scatter bytes off iovs : Stateful (IoError E) M Unit)
      (pieces (bytes.drop off) iovs) (.ok ()) := by
  induction iovs generalizing off with
  | nil => exact .pure
  | cons v iovs hi =>
    rw [scatter, pieces]
    split
    case isTrue hoff =>
      rw [if_pos (drop_eq_nil_of_le hoff)]
      exact .pure
    case isFalse hoff =>
      have hne : bytes.drop off ≠ [] := fun hnil => hoff (drop_eq_nil_iff.mp hnil)
      have hpiece : bytes.slice off (min v.len.toNat (bytes.length - off)) =
          (bytes.drop off).take v.len.toNat := by
        rw [List.slice, take_eq_take_iff, length_drop]
        omega
      have hrest : bytes.drop (off + min v.len.toNat (bytes.length - off)) =
          (bytes.drop off).drop v.len.toNat := by
        rw [drop_drop, drop_eq_drop_iff]
        omega
      dsimp only
      rw [if_neg hne, hpiece]
      refine .store_bind (w := ⟨v.base, (bytes.drop off).take v.len.toNat⟩) ?_ (hrest ▸ hi)
      rw [length_take, length_drop]
      omega

-- The structures at the array, one after the other.
structure IovecsAt (mem : M) (iovPtr : U64) (iovcnt : U32) (iovs : List Iovec) : Prop where
  count : iovcnt.toInt = iovs.length
  array : iovs ≠ [] →
    Fallible.Returns (GuestMem.read mem iovPtr (BitVec.ofNat 64 (16 * iovs.length)))
      (iovs.flatMap toGuestBytes)

omit [LawfulGuestMem M] in
theorem IovecsAt.unique (h : IovecsAt mem iovPtr iovcnt iovs)
    (h' : IovecsAt mem iovPtr iovcnt iovs') : iovs = iovs' := by
  have hl : iovs.length = iovs'.length := Int.natCast_inj.mp (h.count.symm.trans h'.count)
  by_cases hn : iovs = []
  case pos =>
    subst hn
    exact (eq_nil_of_length_eq_zero hl.symm).symm
  case neg =>
    have hn' : iovs' ≠ [] := by
      intro hnil
      rw [hnil] at hl
      exact hn (eq_nil_of_length_eq_zero hl)
    have harray := h.array hn
    rw [hl] at harray
    have hbytes := Except.ok.inj (Option.some.inj (harray.symm.trans (h'.array hn')))
    exact Iovec.flatMap_toGuestBytes_inj hl hbytes

theorem decodeIovecs_eq {array : List U8} (h : n * 16 ≤ array.length) :
    ∃ iovs, decodeIovecs array n = some iovs ∧ iovs.length = n ∧
      iovs.flatMap toGuestBytes = array.take (n * 16) := by
  induction n with
  | zero => exact ⟨[], rfl, rfl, rfl⟩
  | succ n hi =>
    have ⟨iovs, hiovs, hlen, hbytes⟩ := hi (by omega)
    have ⟨v, hv, hvbytes⟩ := @Iovec.fromGuestBytes_toGuestBytes (array.drop (n * 16))
      (by rw [length_drop]; omega)
    refine ⟨iovs ++ [v], ?_, by simp [hlen], ?_⟩
    · unfold decodeIovecs at hiovs ⊢
      rw [range_succ, mapM_append, hiovs]
      simp only [size, mapM_cons, mapM_nil, hv]
      rfl
    · rw [flatMap_append, hbytes, flatMap_singleton, hvbytes, ← take_add]
      congr 1
      omega

section Valid

variable (h : Valid mem)

include h

theorem load_cases (addr len : U64) :
    (∃ e, load (IoError.fault (E := E)) addr len mem = some (.error (.fault e), mem)) ∨
    ∃ bytes, Fallible.Returns (GuestMem.read mem addr len) bytes ∧
      load (IoError.fault (E := E)) addr len mem = some (.ok bytes, mem) := by
  have ⟨result, hrun⟩ := @read_runs M _ _ mem addr len h
  cases result with
  | error e => exact .inl ⟨e, by rw [load, hrun]; rfl⟩
  | ok bytes => exact .inr ⟨bytes, hrun, by rw [load, hrun]; rfl⟩

theorem checkWritable_cases (addr len : U64) :
    (∃ e, checkWritable (IoError.fault (E := E)) addr len mem = some (.error (.fault e), mem)) ∨
    Writable mem addr len ∧
      checkWritable (IoError.fault (E := E)) addr len mem = some (.ok (), mem) := by
  have ⟨result, hrun⟩ := @ensureWritable_runs M _ _ mem addr len h
  cases result with
  | error e => exact .inl ⟨e, by rw [checkWritable, hrun]; rfl⟩
  | ok => exact .inr ⟨hrun, by rw [checkWritable, hrun]; rfl⟩

theorem readIovecs_cases :
    (∃ e : IoError E, readIovecs iovPtr iovcnt mem = some (.error e, mem)) ∨
    ∃ iovs, IovecsAt mem iovPtr iovcnt iovs ∧
      (readIovecs iovPtr iovcnt : Stateful (IoError E) M _) mem = some (.ok iovs, mem) := by
  unfold readIovecs
  split
  case isTrue => exact .inl ⟨_, rfl⟩
  case isFalse hpos =>
    have hcount : iovcnt.toInt = iovcnt.toNat := by
      rw [BitVec.toInt_eq_toNat_cond] at hpos ⊢
      split at hpos <;> omega
    dsimp only
    split
    case isTrue hz => exact .inr ⟨[], ⟨by rw [hcount, hz]; rfl, fun hne => absurd rfl hne⟩, rfl⟩
    case isFalse hz =>
      split
      case isTrue => exact .inl ⟨_, rfl⟩
      case isFalse hmax =>
        have hmax : iovcnt.toNat ≤ 1024 := Nat.not_lt.mp hmax
        have hlen : (BitVec.ofNat 64 (iovcnt.toNat * 16)).toNat = iovcnt.toNat * 16 :=
          Nat.mod_eq_of_lt (by omega)
        rw [show size Iovec = 16 from rfl, if_neg (by omega)]
        match @load_cases E M _ _ mem h iovPtr (BitVec.ofNat 64 (iovcnt.toNat * 16)) with
        | .inl ⟨e, hload⟩ => exact .inl ⟨_, Stateful.bind_of_error hload⟩
        | .inr ⟨array, hread, hload⟩ =>
          have ⟨_, harray, _⟩ := read_returns h hread
          rw [hlen] at harray
          have ⟨iovs, hiovs, hl, hbytes⟩ := decodeIovecs_eq harray.ge
          rw [← harray, take_length] at hbytes
          refine .inr ⟨iovs, ⟨by rw [hcount, hl], fun _ => ?_⟩, ?_⟩
          · rw [hl, Nat.mul_comm, hbytes]
            exact hread
          · rw [Stateful.bind_of_ok hload, hiovs]
            rfl

theorem capacity_cases (total : U64) :
    (∃ e : IoError E, capacity total iovs mem = some (.error e, mem)) ∨
    (∀ v ∈ iovs, Writable mem v.base v.len) ∧
      ∃ sum, sum.toNat = total.toNat + (addresses iovs).length ∧
        (capacity total iovs : Stateful (IoError E) M _) mem = some (.ok sum, mem) := by
  induction iovs generalizing total with
  | nil => exact .inr ⟨nofun, total, rfl, rfl⟩
  | cons v iovs hi =>
    rw [capacity]
    match @checkWritable_cases E M _ _ mem h v.base v.len with
    | .inl ⟨e, hcheck⟩ => exact .inl ⟨_, Stateful.bind_of_error hcheck⟩
    | .inr ⟨hw, hcheck⟩ =>
      rw [Stateful.bind_of_ok hcheck]
      match hsum : total.checkedAdd v.len with
      | none => exact .inl ⟨_, rfl⟩
      | some next =>
        match hi next with
        | .inl herror => exact .inl herror
        | .inr ⟨hall, sum, hs, hrun⟩ =>
          have hnext := (BitVec.checkedAdd_eq_some).mp hsum
          refine .inr ⟨forall_mem_cons.mpr ⟨hw, hall⟩, sum, ?_, hrun⟩
          rw [addresses_cons, length_append, Iovec.length_addresses]
          omega

theorem readIovecs_ok
    (hrun : (readIovecs iovPtr iovcnt : Stateful (IoError E) M _) mem = some (.ok iovs, mem')) :
    IovecsAt mem iovPtr iovcnt iovs ∧ mem' = mem := by
  match @readIovecs_cases E M _ _ mem iovPtr iovcnt h with
  | .inl ⟨e, hread⟩ => nomatch hread.symm.trans hrun
  | .inr ⟨_, hiovs, hread⟩ =>
    cases hread.symm.trans hrun
    exact ⟨hiovs, rfl⟩

theorem capacity_ok
    (hrun : (capacity 0 iovs : Stateful (IoError E) M _) mem = some (.ok total, mem')) :
    (∀ v ∈ iovs, Writable mem v.base v.len) ∧ total.toNat = (addresses iovs).length ∧
      mem' = mem := by
  match @capacity_cases E M _ _ mem iovs h 0 with
  | .inl ⟨e, hcap⟩ => nomatch hcap.symm.trans hrun
  | .inr ⟨hw, _, htotal, hcap⟩ =>
    cases hcap.symm.trans hrun
    exact ⟨hw, htotal.trans (Nat.zero_add _), rfl⟩

theorem scatter_performed
    (hrun : (scatter bytes 0 iovs : Stateful (IoError E) M _) mem = some (.ok (), mem')) :
    Performed mem (pieces bytes iovs) mem' := by
  match @scatter_follows E M _ _ iovs bytes 0 mem h with
  | .inl ⟨_, _, _, _, _, _, _, _, herror⟩ => nomatch herror.symm.trans hrun
  | .inr ⟨_, hdone, hok⟩ =>
    cases hok.symm.trans hrun
    exact hdone

end Valid

-- The array and all buffers can be used.
structure Accessible (mem : M) (iovPtr : U64) (iovcnt : U32) (iovs : List Iovec) : Prop where
  iovecs : IovecsAt mem iovPtr iovcnt iovs
  writable : ∀ v ∈ iovs, Writable mem v.base v.len

variable {source : FdEntry F → Except (IoError E) (HostRead H E)} {fds : FdTable F} {fd : U32}

-- The bytes come from this read of the descriptor.
structure ReadFrom (source : FdEntry F → Except (IoError E) (HostRead H E)) (fds : FdTable F)
    (fd : U32) (total : Nat) (host : H) (bytes : List U8) (host' : H) : Prop where
  read : ∃ entry read, fds.get fd = some entry ∧ source entry = .ok read ∧
    read.run (BitVec.ofNat 64 total) host = (.ok bytes, host')
  short : bytes.length ≤ total

omit [GuestMem M] [LawfulGuestMem M] in
theorem readHost_ok (h : readHost source fds fd total (host, mem) = some (.ok bytes, (host', mem'))) :
    ReadFrom source fds fd total.toNat host bytes host' ∧ mem' = mem := by
  unfold readHost at h
  dsimp only at h
  split at h
  · nomatch h
  · split at h
    · nomatch h
    case _ entry hentry =>
      split at h
      · nomatch h
      case _ read hsource =>
        split at h
        · nomatch h
        case _ hrun =>
          cases h
          refine ⟨⟨⟨entry, read, hentry, hsource, ?_⟩, read.short hrun⟩, rfl⟩
          rw [BitVec.ofNat_toNat, BitVec.setWidth_eq, hrun]

-- The array or one of the buffers cannot be used.
def Inaccessible (mem : M) (iovPtr : U64) (iovcnt : U32) : Prop :=
  (¬∃ iovs, IovecsAt mem iovPtr iovcnt iovs) ∨
    ∃ iovs, IovecsAt mem iovPtr iovcnt iovs ∧ ∃ v ∈ iovs, ¬Writable mem v.base v.len

theorem readScattered_refused (h : Valid mem) (hn : Inaccessible mem iovPtr iovcnt) :
    ∃ e, readScattered source fds fd iovPtr iovcnt (host, mem) = some (.error e, (host, mem)) := by
  unfold readScattered
  match @readIovecs_cases E M _ _ mem iovPtr iovcnt h with
  | .inl ⟨e, hread⟩ => exact ⟨e, Stateful.bind_of_error (Stateful.onSnd_of_eq hread)⟩
  | .inr ⟨iovs, hiovs, hread⟩ =>
    rw [Stateful.bind_of_ok (Stateful.onSnd_of_eq hread)]
    match @capacity_cases E M _ _ mem iovs h 0 with
    | .inl ⟨e, hcap⟩ => exact ⟨e, Stateful.bind_of_error (Stateful.onSnd_of_eq hcap)⟩
    | .inr ⟨hw, _⟩ =>
      match hn with
      | .inl hnone => exact absurd ⟨iovs, hiovs⟩ hnone
      | .inr ⟨_, hiovs', v, hv, hnw⟩ => exact absurd (hw v (hiovs.unique hiovs' ▸ hv)) hnw

theorem readScattered_ok (h : Valid mem)
    (hrun : readScattered source fds fd iovPtr iovcnt (host, mem) = some (.ok n, (host', mem'))) :
    ∃ iovs bytes, Accessible mem iovPtr iovcnt iovs ∧
      ReadFrom source fds fd (addresses iovs).length host bytes host' ∧ n = bytes.length ∧
      (iovs.Pairwise Apart → Scattered (GuestMem.byte mem) (GuestMem.byte mem') iovs bytes) := by
  have ⟨iovs, (host₁, mem₁), hread', hrun⟩ := Stateful.ok_of_bind hrun
  have ⟨total, (host₂, mem₂), hcap', hrun⟩ := Stateful.ok_of_bind hrun
  have ⟨bytes, (host₃, mem₃), hhost, hrun⟩ := Stateful.ok_of_bind hrun
  have ⟨_, (host₄, mem₄), hscatter', hrun⟩ := Stateful.ok_of_bind hrun
  cases hrun
  have ⟨hread, hh₁⟩ := Stateful.eq_of_onSnd hread'
  have ⟨hcap, hh₂⟩ := Stateful.eq_of_onSnd hcap'
  have ⟨hscatter, hh₄⟩ := Stateful.eq_of_onSnd hscatter'
  have ⟨hiovs, hm₁⟩ := readIovecs_ok h hread
  subst hh₁ hm₁ hh₂ hh₄
  have ⟨hw, htotal, hm₂⟩ := capacity_ok h hcap
  have ⟨hbytes, hm₃⟩ := readHost_ok hhost
  subst hm₂ hm₃
  rw [htotal] at hbytes
  refine ⟨iovs, bytes, ⟨hiovs, hw⟩, hbytes, rfl, fun hapart => ?_⟩
  have hdone := scatter_performed h hscatter
  have hfits : ∀ v ∈ iovs, v.base.toNat + v.len.toNat ≤ 2 ^ 64 := by
    intro v hv
    have ⟨_, hread⟩ := readable_of_writable h (hw v hv)
    exact (read_returns h hread).left.le
  rw [hdone.bytes]
  exact giveAll_pieces hfits hapart hbytes.short

-- A read that succeeds leaves the bytes from the descriptor in the buffers, in their order, and
-- the rest of the memory alone. If the array or a buffer is not accessible, neither the
-- descriptor nor the memory is touched.
theorem reads_scatter (h : Valid mem) (io : HostIo H F E) (fds : FdTable F) (fd : U32)
    (iovPtr : U64) (iovcnt : U32) (host : H) :
    ((∀ n host' mem', readv io fds fd iovPtr iovcnt (host, mem) = some (.ok n, (host', mem')) →
        ∃ iovs bytes, Accessible mem iovPtr iovcnt iovs ∧
          ReadFrom (streamSource io) fds fd (addresses iovs).length host bytes host' ∧
          n = bytes.length ∧ (iovs.Pairwise Apart →
            Scattered (GuestMem.byte mem) (GuestMem.byte mem') iovs bytes)) ∧
      (Inaccessible mem iovPtr iovcnt →
        ∃ e, readv io fds fd iovPtr iovcnt (host, mem) = some (.error e, (host, mem)))) ∧
    ∀ offset,
      (∀ n host' mem',
        preadv io fds fd iovPtr iovcnt offset (host, mem) = some (.ok n, (host', mem')) →
        ∃ iovs bytes, Accessible mem iovPtr iovcnt iovs ∧
          ReadFrom (positionSource io offset) fds fd (addresses iovs).length host bytes host' ∧
          n = bytes.length ∧ (iovs.Pairwise Apart →
            Scattered (GuestMem.byte mem) (GuestMem.byte mem') iovs bytes)) ∧
      (Inaccessible mem iovPtr iovcnt →
        ∃ e, preadv io fds fd iovPtr iovcnt offset (host, mem) = some (.error e, (host, mem))) :=
  ⟨⟨fun _ _ _ => readScattered_ok h, readScattered_refused h⟩,
    fun _ => ⟨fun _ _ _ => readScattered_ok h, readScattered_refused h⟩⟩

end Reads

def threeBytes : HostRead Unit Unit where
  run len host := (.ok ([7, 8, 9].take len.toNat), host)
  short h := by
    cases h
    exact length_take_le ..

-- An array of two structures, followed by four bytes. The second structure has the first two of
-- them.
def twoBuffers : GuestRegion :=
  ⟨0x1000, .readWrite,
    toGuestBytes (⟨0x1022, 2⟩ : Iovec) ++ toGuestBytes (⟨0x1020, 2⟩ : Iovec) ++ [0, 0, 0, 0]⟩

theorem reads_scatter_twoBuffers :
    ∃ mem' : GuestRegion,
      readv ⟨threeBytes, fun _ : Unit => threeBytes, fun _ _ => threeBytes⟩ ⟨[some .stdin]⟩
        0 0x1000 2 ((), twoBuffers) = some (.ok 3, ((), mem')) ∧
      ∃ bytes, bytes.length = 3 ∧ Scattered (GuestMem.byte twoBuffers) (GuestMem.byte mem')
        [⟨0x1022, 2⟩, ⟨0x1020, 2⟩] bytes := by
  have ⟨mem', hrun⟩ : ∃ mem' : GuestRegion,
      readv ⟨threeBytes, fun _ : Unit => threeBytes, fun _ _ => threeBytes⟩ ⟨[some .stdin]⟩
        0 0x1000 2 ((), twoBuffers) = some (.ok 3, ((), mem')) := ⟨_, rfl⟩
  have ⟨iovs, bytes, hiovs, _, hn, hscattered⟩ :=
    (reads_scatter (show Valid twoBuffers from trivial) _ _ _ _ _ _).left.left _ _ _ hrun
  have hlisted : IovecsAt twoBuffers 0x1000 2 [⟨0x1022, 2⟩, ⟨0x1020, 2⟩] := ⟨rfl, fun _ => rfl⟩
  have happart : Apart (⟨0x1022, 2⟩ : Iovec) ⟨0x1020, 2⟩ := fun _ hfirst hsecond =>
    Nat.lt_irrefl _ (Nat.lt_of_lt_of_le hsecond.right hfirst.left)
  cases hiovs.iovecs.unique hlisted
  exact ⟨mem', hrun, bytes, hn.symm, hscattered (by simpa using happart)⟩

end IoSyscalls

end Prisma
