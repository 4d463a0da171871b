import Prisma.Orchestrator.Theorems.BackedAddressSpace

-- A backed address space and the log of what was mapped, written and released in it, the latest
-- event first.

namespace Prisma

open Extent Placed

inductive MemEvent
  | gives (addr : U64) (bytes : List U8)
  | takes (addr : U64) (len : Nat)

namespace MemEvent

-- The byte that the last event at an address left there.
def lastGiven : List MemEvent → U64 → Option U8
  | [], _ => none
  | gives addr bytes :: log, x =>
    if MappedMemory.InRange addr bytes.length x then bytes[x.toNat - addr.toNat]?
    else lastGiven log x
  | takes addr len :: log, x =>
    if MappedMemory.InRange addr len x then none else lastGiven log x

end MemEvent

-- What a successful call does to the bytes. The length of the region at a base is given.
def MemCall.event (lenAt : U64 → U64) : MemCall → MemReply → Option MemEvent
  | map base len _, _ => some (.gives base (List.replicate len.toNat 0))
  | mapWithBytes base bytes _, _ => some (.gives base bytes)
  | unmap base, _ => some (.takes base (lenAt base).toNat)
  | write addr src, _ => some (.gives addr src)
  | mmapAnon len _ _, .placed base => some (.gives base (List.replicate len.toNat 0))
  | resize base newSize, _ =>
    if lenAt base ≤ newSize then
      some (.gives (base + lenAt base) (List.replicate (newSize - lenAt base).toNat 0))
    else some (.takes (base + newSize) (lenAt base - newSize).toNat)
  | _, _ => none

namespace MappedMemory

variable {mem : MappedMemory} {room : U64 → Nat → Bool} {base len newSize minAddr addr : U64}
  {prot : Protection} {bytes src : List U8} {call : MemCall} {log : List MemEvent}

def lenAt (mem : MappedMemory) (base : U64) : U64 :=
  ((mem.space.regions.find? (·.base = base)).map Region.size).getD 0

-- A call fails without an effect, or it succeeds and leaves these bytes.
inductive Outcome {ε α : Type} (mem : MappedMemory) (byte : α → U64 → Option U8) :
    Except ε α × MappedMemory → Prop
  | fails (e : ε) : Outcome mem byte (.error e, mem)
  | succeeds (a : α) (space : AddressSpace) : Outcome mem byte (.ok a, ⟨space, byte a⟩)

theorem insert_outcome :
    Outcome mem (fun _ => give mem.byte base bytes) (mem.insert room base prot bytes) := by
  unfold insert
  split
  · exact .fails _
  · dsimp only
    split
    · exact .fails _
    · split
      · exact .succeeds () _
      · exact .fails _

theorem unmap_outcome :
    Outcome mem (fun _ => take mem.byte base (mem.lenAt base).toNat) (mem.unmap base) := by
  unfold unmap AddressSpace.unmap lenAt
  cases mem.space.regions.find? (·.base = base) with
  | none => exact .fails _
  | some region => exact .succeeds () _

theorem write_outcome :
    Outcome mem (fun _ => give mem.byte addr src) (mem.write addr src) := by
  unfold write
  split
  · exact .fails _
  · exact .succeeds () _

theorem mmapAnon_outcome :
    Outcome mem (fun base => give mem.byte base (List.replicate len.toNat 0))
      (mem.mmapAnon room len minAddr prot) := by
  unfold mmapAnon
  split
  · exact .fails _
  · split
    · exact .fails _
    case _ base _ =>
      have hinsert : Outcome mem _ (mem.insert room base prot (List.replicate len.toNat 0)) :=
        insert_outcome
      generalize mem.insert room base prot (List.replicate len.toNat 0) = result at hinsert
      cases hinsert with
      | fails => exact .fails _
      | succeeds => exact .succeeds base _

theorem resize_outcome :
    Outcome mem (fun _ => resizeByte mem.byte base (mem.lenAt base) newSize)
      (mem.resize room base newSize) := by
  unfold resize
  split
  · exact .fails _
  · split
    · exact .succeeds () _
    · exact .fails _

theorem mprotect_outcome : Outcome mem (fun _ => mem.byte) (mem.mprotect base prot) := by
  unfold mprotect
  split
  · exact .fails _
  · exact .succeeds _ _

-- The bytes after a call, by its event.
def after (byte : U64 → Option U8) : Option MemEvent → U64 → Option U8
  | none => byte
  | some (.gives addr bytes) => give byte addr bytes
  | some (.takes addr len) => take byte addr len

theorem lastGiven_append {event : Option MemEvent} :
    MemEvent.lastGiven (event.toList ++ log) = after (MemEvent.lastGiven log) event := by
  match event with
  | none => rfl
  | some (.gives ..) => rfl
  | some (.takes ..) => rfl

theorem after_resize {lenAt : U64 → U64} {reply : MemReply} :
    resizeByte mem.byte base (lenAt base) newSize =
      after mem.byte ((MemCall.resize base newSize).event lenAt reply) := by
  show _ = after mem.byte (if lenAt base ≤ newSize then _ else _)
  unfold resizeByte
  split <;> rfl

theorem Outcome.spaceResult {α : Type} {byte : α → U64 → Option U8} {f : α → MemReply}
    {result : Except AddressSpaceError α × MappedMemory} {byte' : MemReply → U64 → Option U8}
    (h : Outcome mem byte result) (hb : ∀ a, byte a = byte' (f a)) :
    Outcome mem byte' (MappedMemory.spaceResult f result) := by
  cases h with
  | fails e => exact .fails _
  | succeeds a space =>
    rw [hb]
    exact .succeeds (f a) space

theorem apply_outcome :
    Outcome mem (fun reply => after mem.byte (call.event mem.lenAt reply))
      (mem.apply room call) := by
  cases call with
  | map => exact Outcome.spaceResult insert_outcome fun _ => rfl
  | mapWithBytes => exact Outcome.spaceResult insert_outcome fun _ => rfl
  | unmap => exact Outcome.spaceResult unmap_outcome fun _ => rfl
  | read addr len =>
    rw [apply]
    cases mem.read addr len with
    | error => exact .fails _
    | ok => exact .succeeds _ _
  | write addr src =>
    have hwrite : Outcome mem _ (mem.write addr src) := write_outcome
    rw [apply]
    generalize mem.write addr src = result at hwrite
    cases hwrite with
    | fails => exact .fails _
    | succeeds => exact .succeeds MemReply.done _
  | ensureWritable addr len =>
    rw [apply]
    cases mem.ensureWritable addr len.toNat with
    | error => exact .fails _
    | ok => exact .succeeds _ _
  | mmapAnon => exact Outcome.spaceResult mmapAnon_outcome fun _ => rfl
  | resize => exact Outcome.spaceResult resize_outcome fun _ => after_resize
  | mprotect => exact Outcome.spaceResult mprotect_outcome fun _ => rfl

section Range

variable {n : Nat} {q : Region} {endOff : U64}

theorem toNat_offset (hc : Covers q addr.toNat) : (addr - q.base).toNat = addr.toNat - lo q :=
  BitVec.toNat_sub_of_le (BitVec.le_def.mpr hc.left)

theorem gt_size_iff (hc : Covers q addr.toNat) (he : (addr - q.base).toNat + n = endOff.toNat) :
    endOff > q.size ↔ hi q < addr.toNat + n := by
  have hlo := hc.left
  have hhi : hi q = lo q + q.size.toNat := rfl
  rw [gt_iff_lt, BitVec.lt_def, ← he, toNat_offset hc]
  omega

theorem ensureWritable_ok_iff (hwf : mem.space.WellFormed) :
    mem.ensureWritable addr n = .ok () ↔
      ∃ q ∈ mem.space.regions, Covers q addr.toNat ∧ addr.toNat + n ≤ hi q ∧
        q.prot.isWritable := by
  constructor
  · intro h
    unfold ensureWritable at h
    split at h
    · nomatch h
    case _ q off ht =>
      have ⟨hq, hc, hoff⟩ := AddressSpace.translate_eq_some hwf ht
      split at h
      · nomatch h
      case isFalse hw =>
        split at h
        · nomatch h
        case _ endOff hadd =>
          rw [BitVec.checkedAddNat_eq_some, hoff] at hadd
          split at h
          · nomatch h
          case isFalse hle =>
            exact ⟨q, hq, hc, Nat.not_lt.mp (mt (gt_size_iff hc hadd).mpr hle), by simpa using hw⟩
  · rintro ⟨q, hq, hc, hle, hw⟩
    have hfits := hwf.fits hq
    have hlo := hc.left
    rw [ensureWritable, AddressSpace.translate_of_covers hwf hq hc]
    dsimp only
    rw [if_neg (by simpa using hw)]
    cases hadd : (addr - q.base).checkedAddNat n with
    | none =>
      rw [BitVec.checkedAddNat_eq_none, toNat_offset hc] at hadd
      omega
    | some endOff =>
      rw [BitVec.checkedAddNat_eq_some] at hadd
      exact if_neg (mt (gt_size_iff hc hadd).mp (Nat.not_lt.mpr hle))

theorem read_ok_iff (hwf : mem.space.WellFormed) :
    mem.read addr len = .ok bytes ↔
      (∃ q ∈ mem.space.regions, Covers q addr.toNat ∧ addr.toNat + len.toNat ≤ hi q) ∧
      bytes = (List.range len.toNat).map fun k => (mem.byte (addr + BitVec.ofNat 64 k)).getD 0 := by
  constructor
  · intro h
    unfold read at h
    split at h
    · nomatch h
    case _ q off ht =>
      have ⟨hq, hc, hoff⟩ := AddressSpace.translate_eq_some hwf ht
      split at h
      · nomatch h
      case _ endOff hadd =>
        rw [BitVec.checkedAdd_eq_some, hoff] at hadd
        split at h
        · nomatch h
        case isFalse hle =>
          cases h
          exact ⟨⟨q, hq, hc, Nat.not_lt.mp (mt (gt_size_iff hc hadd).mpr hle)⟩, rfl⟩
  · rintro ⟨⟨q, hq, hc, hle⟩, rfl⟩
    have hfits := hwf.fits hq
    have hlo := hc.left
    rw [read, AddressSpace.translate_of_covers hwf hq hc]
    dsimp only
    cases hadd : (addr - q.base).checkedAdd len with
    | none =>
      rw [BitVec.checkedAdd_eq_none, toNat_offset hc] at hadd
      omega
    | some endOff =>
      rw [BitVec.checkedAdd_eq_some] at hadd
      exact if_neg (mt (gt_size_iff hc hadd).mp (Nat.not_lt.mpr hle))

end Range

theorem insert_ok_iff (h : mem.space.WellFormed) :
    (mem.insert room base prot bytes).fst = .ok () ↔
      bytes.length ≠ 0 ∧ base.toNat + bytes.length < 2 ^ 64 ∧
      (∀ r ∈ mem.space.regions, ¬Meets r base.toNat (base.toNat + bytes.length)) ∧
      room base bytes.length := by
  unfold insert
  split
  case isTrue hl =>
    refine ⟨nofun, fun ⟨_, hfits, _⟩ => ?_⟩
    omega
  case isFalse hl =>
    have hlen : (BitVec.ofNat 64 bytes.length).toNat = bytes.length := Nat.mod_eq_of_lt (by omega)
    dsimp only
    constructor
    · intro hok
      split at hok
      · nomatch hok
      case _ he =>
        have he := congrArg Prod.fst he
        have hz := AddressSpace.size_ne_zero_of_map_ok he
        have ⟨hfits, hfree⟩ := AddressSpace.free_of_map_ok h he
        rw [hlen] at hfits hfree
        refine ⟨fun hz' => hz (BitVec.eq_of_toNat_eq (hlen.trans hz')), hfits, hfree, ?_⟩
        split at hok
        · assumption
        · nomatch hok
    · rintro ⟨hz, hfits, hfree, hroom⟩
      have hz' : BitVec.ofNat 64 bytes.length ≠ 0 := fun he => hz (hlen ▸ congrArg BitVec.toNat he)
      have hf : Placed.Free mem.space.regions (BitVec.ofNat 64 bytes.length) base := by
        rw [Placed.Free, hlen]
        exact ⟨hfits, hfree⟩
      have ⟨_, he, _⟩ := AddressSpace.map_eq_ok h hz' hf prot ""
      rw [he]
      dsimp only
      rw [if_pos hroom]

theorem insert_of_mmapAnon {mem' : MappedMemory}
    (h : mem.mmapAnon room len minAddr prot = (.ok base, mem')) :
    mem.insert room base prot (List.replicate len.toNat 0) = (.ok (), mem') := by
  unfold mmapAnon at h
  split at h
  · nomatch h
  · split at h
    · nomatch h
    · split at h
      · nomatch h
      case _ he =>
        cases h
        exact he

section Frame

variable {mem' : MappedMemory} {r : Region} {x : U64}
  (hwf : mem.space.WellFormed) (hr : r ∈ mem.space.regions) (hc : Covers r x.toNat)
include hwf hr hc

theorem insert_frame (h : mem.insert room base prot bytes = (.ok (), mem')) :
    ¬InRange base bytes.length x := by
  have ⟨_, _, hfree, _⟩ := (insert_ok_iff hwf).mp (congrArg Prod.fst h)
  have hmeets := hfree r hr
  have ⟨hlo, hhi⟩ := hc
  unfold Meets at hmeets
  unfold InRange
  omega

theorem unmap_frame (hne : r.base ≠ base) (h : mem.unmap base = (.ok (), mem')) :
    ¬InRange base (mem.lenAt base).toNat x := by
  unfold unmap AddressSpace.unmap at h
  unfold lenAt
  cases hf : mem.space.regions.find? (·.base = base) with
  | none =>
    rw [hf] at h
    nomatch h
  | some q =>
    have hq : q.base = base := by simpa using List.find?_some hf
    rintro hx
    subst hq
    exact hne (congrArg Region.base (hwf.eq_of_covers hr (List.mem_of_find?_eq_some hf) hc hx))

theorem write_frame (hne : ¬r.contains addr) (h : mem.write addr src = (.ok (), mem')) :
    ¬InRange addr src.length x := by
  unfold write at h
  split at h
  · nomatch h
  case _ hok =>
    have ⟨q, hq, hcq, hle, _⟩ := (ensureWritable_ok_iff hwf).mp hok
    intro hx
    unfold InRange at hx
    have hqx : Covers q x.toNat := ⟨Nat.le_trans hcq.left hx.left, by omega⟩
    rw [← hwf.eq_of_covers hr hq hc hqx] at hcq
    exact hne ((contains_iff (hwf.fits hr)).mpr hcq)

theorem resize_frame (hne : r.base ≠ base) (h : mem.resize room base newSize = (.ok (), mem')) :
    resizeByte mem.byte base (mem.lenAt base) newSize x = mem.byte x := by
  unfold resize at h
  have houtcome : AddressSpace.Outcome _ _ _ (mem.space.resizeRegion base newSize) :=
    AddressSpace.resizeRegion_outcome hwf
  split at h
  · nomatch h
  case _ space' he =>
    rw [he] at houtcome
    cases houtcome with
    | succeeds _ _ hwf' old hedit =>
      have ⟨q, hq⟩ := AddressSpace.regionAt_of_resizeRegion he
      cases hedit.regionAt.symm.trans hq
      have hlen : mem.lenAt base = q.size := by
        unfold lenAt
        rw [AddressSpace.regionAt] at hq
        rw [hq]
        rfl
      have hqb : q.base = base := by simpa using List.find?_some hq
      have hqm : q ∈ mem.space.regions := List.mem_of_find?_eq_some hq
      have hqm' : { q with size := newSize } ∈ space'.regions := hedit.mem_new
      have hqx : ¬Covers q x.toNat := fun hqx =>
        hne ((congrArg Region.base (hwf.eq_of_covers hr hqm hc hqx)).trans hqb)
      have hqx' : ¬Covers ({ q with size := newSize } : Region) x.toNat := fun hqx' =>
        hne ((congrArg Region.base (hwf'.eq_of_covers (hedit.mem hr hne) hqm' hc hqx')).trans hqb)
      have hfits' : q.base.toNat + newSize.toNat < 2 ^ 64 := hwf'.fits hqm'
      subst hqb
      rw [hlen]
      refine (resizeByte_eq (hwf.fits hqm) hfits').trans ?_
      exact (if_neg hqx).trans (if_neg hqx')

end Frame

end MappedMemory

-- Whether a call may change the bytes of a region.
def MemCall.changes (r : MemRegion) : MemCall → Bool
  | unmap base | resize base _ => r.base = base
  | write addr _ => r.contains addr
  | _ => false

namespace BackedAddressSpace

def lenAt (space : BackedAddressSpace) (base : U64) : U64 :=
  ((space.regions.find? (·.base = base)).map MemRegion.len).getD 0

-- A space together with the events that led to it.
inductive Recorded : BackedAddressSpace → List MemEvent → Prop
  | new : Recorded new []
  | withArena {pageSize windowBase windowSize space}
    (hnew : withArena pageSize windowBase windowSize = some space) : Recorded space []
  | succeeds {space log call reply space'} (h : Recorded space log)
    (hcall : MemCall.apply space call = some (.ok reply, space')) :
    Recorded space' ((call.event space.lenAt reply).toList ++ log)
  | fails {space log call e space'} (h : Recorded space log)
    (hcall : MemCall.apply space call = some (.error e, space')) : Recorded space' log

variable {space space' : BackedAddressSpace} {log : List MemEvent} {call : MemCall}
  {result : MemResult} {r : MemRegion} {addr len x : U64} {bytes : List U8} {b : U8}

theorem lenAt_view : space.view.lenAt = space.lenAt := by
  funext base
  rw [MappedMemory.lenAt, lenAt, regions_view, List.find?_map, Option.map_map]
  rfl

theorem lenAt_of_mem (h : Sound space) (hr : r ∈ space.regions) : space.lenAt r.base = r.len := by
  unfold lenAt
  cases hf : space.regions.find? (·.base = r.base) with
  | none => simpa using List.find?_eq_none.mp hf r hr
  | some q =>
    have hq : q.base = r.base := by simpa using List.find?_some hf
    have hqm := List.mem_of_find?_eq_some hf
    rw [h.wellFormed.eq_of_lo_eq hqm hr (congrArg BitVec.toNat hq)]
    rfl

theorem apply_view (h : Sound space) (hcall : call.apply space = some (result, space')) :
    space.view.apply space.room call = (result, space'.view) ∧ Sound space' := by
  obtain ⟨_, hres, hfst, hview, hsound, _⟩ | ⟨hres, _⟩ := apply_refines h call
  all_goals cases hcall.symm.trans hres
  exact ⟨Prod.ext hfst.symm hview.symm, hsound⟩

theorem insertRegion_ok_iff {base : U64} (h : Sound space) :
    (space.insertRegion base prot bytes).fst = .ok () ↔
      bytes.length ≠ 0 ∧ base.toNat + bytes.length < 2 ^ 64 ∧
      (∀ r ∈ space.regions, ¬Meets r base.toNat (base.toNat + bytes.length)) ∧
      space.room base bytes.length := by
  rw [(insertRegion_refines h).fst, MappedMemory.insert_ok_iff (wellFormed_view h.wellFormed),
    regions_view]
  simp only [List.forall_mem_map]
  rfl

theorem mapZeroed_ok_iff {base : U64} {prot : Protection} (h : Sound space) :
    (space.mapZeroed base len prot).fst = .ok () ↔
      len ≠ 0 ∧ Free space.regions len base ∧ space.room base len.toNat := by
  rw [mapZeroed, insertRegion_ok_iff h, List.length_replicate, Placed.Free, and_assoc]
  exact and_congr_left' (@BitVec.toNat_inj 64 len 0).not

theorem Recorded.view_byte (h : Recorded space log) :
    Sound space ∧ space.view.byte = MemEvent.lastGiven log := by
  induction h with
  | new => exact ⟨sound_new, rfl⟩
  | withArena hnew =>
    have ⟨arena, _, he⟩ := Option.map_eq_some_iff.mp hnew
    cases he
    exact ⟨sound_arena, rfl⟩
  | @succeeds space log call reply space' _ hcall hi =>
    have ⟨happly, hsound⟩ := apply_view hi.left hcall
    have houtcome : MappedMemory.Outcome _ _ (space.view.apply space.room call) :=
      MappedMemory.apply_outcome
    rw [happly, lenAt_view, hi.right] at houtcome
    refine ⟨hsound, ?_⟩
    generalize space'.view = mem at houtcome
    cases houtcome
    exact MappedMemory.lastGiven_append.symm
  | @fails space log call e space' _ hcall hi =>
    have ⟨happly, hsound⟩ := apply_view hi.left hcall
    have houtcome : MappedMemory.Outcome _ _ (space.view.apply space.room call) :=
      MappedMemory.apply_outcome
    rw [happly] at houtcome
    refine ⟨hsound, ?_⟩
    generalize space'.view = mem at houtcome
    cases houtcome
    exact hi.right

section Read

variable (h : Sound space)

include h

theorem read_returns_iff :
    Fallible.Returns (space.read addr len) bytes ↔ space.view.read addr len = .ok bytes := by
  rw [Fallible.Returns, read_refines h, Option.some_inj]

theorem view_byte_isSome (hr : r ∈ space.regions) (hc : Covers r x.toNat) :
    ∃ b, space.view.byte x = some b := by
  have ⟨i, _, hget⟩ := regionIdx_of_covers h.wellFormed hr hc
  have ⟨bytes, _, hlen, hcell⟩ := regionBytes_eq h hget
  have hhi : hi r = lo r + r.len.toNat := rfl
  have hlt : x.toNat - lo r < bytes.length := by
    have := hc.left
    have := hc.right
    omega
  exact ⟨_, by rw [view_byte_of_covers h hr hc, ← hcell x hc, List.getElem?_eq_getElem hlt]⟩

theorem view_read_ok_iff :
    space.view.read addr len = .ok bytes ↔
      (∃ r ∈ space.regions, Covers r addr.toNat ∧ addr.toNat + len.toNat ≤ hi r) ∧
      bytes = (List.range len.toNat).map fun k =>
        (space.view.byte (addr + BitVec.ofNat 64 k)).getD 0 := by
  rw [MappedMemory.read_ok_iff (wellFormed_view h.wellFormed), regions_view]
  simp only [List.mem_map, exists_exists_and_eq_and]
  rfl

theorem view_byte_of_read (hread : Fallible.Returns (space.read addr len) bytes) :
    addr.toNat + len.toNat < 2 ^ 64 ∧ bytes.length = len.toNat ∧
      ∀ k < len.toNat, space.view.byte (addr + BitVec.ofNat 64 k) = bytes[k]? := by
  have ⟨⟨r, hr, hc, hle⟩, hbytes⟩ := (view_read_ok_iff h).mp ((read_returns_iff h).mp hread)
  have hfits := h.wellFormed.fits hr
  refine ⟨by omega, by simp [hbytes], fun k hk => ?_⟩
  have hk' : (addr + BitVec.ofNat 64 k).toNat = addr.toNat + k :=
    AddressSpace.toNat_add_ofNat (by omega)
  have hck : Covers r (addr + BitVec.ofNat 64 k).toNat :=
    ⟨hk' ▸ Nat.le_add_right_of_le hc.left, by omega⟩
  have ⟨b, hb⟩ := view_byte_isSome h hr hck
  simp [hbytes, hb, hk]

theorem read_byte (hb : space.view.byte x = some b) :
    Fallible.Returns (space.read x 1) [b] := by
  have ⟨r, hr, hc, _⟩ := (view_byte_eq_some h).mp hb
  refine (read_returns_iff h).mpr ((view_read_ok_iff h).mpr ⟨⟨r, hr, hc, hc.right⟩, ?_⟩)
  simp [hb]

end Read

theorem spaceResult_eq_ok {α : Type} {f : α → MemReply} {reply : MemReply} {mem : MappedMemory}
    {result : Except AddressSpaceError α × MappedMemory}
    (h : MappedMemory.spaceResult f result = (.ok reply, mem)) :
    ∃ a, result = (.ok a, mem) ∧ reply = f a := by
  match result, h with
  | (.ok a, _), rfl => exact ⟨a, rfl, rfl⟩

theorem write_eq_ok {mem mem' : MappedMemory} {room : U64 → Nat → Bool} {src : List U8}
    {reply : MemReply} (h : mem.apply room (.write addr src) = (.ok reply, mem')) :
    reply = .done ∧ mem.write addr src = (.ok (), mem') := by
  rw [MappedMemory.apply] at h
  generalize mem.write addr src = result at h
  rcases result with ⟨_ | _, _⟩
  case error => cases h
  case ok => cases h; exact ⟨rfl, rfl⟩

theorem view_byte_frame (h : Sound space) (hcall : call.apply space = some (result, space'))
    (hr : r ∈ space.regions) (hn : ¬call.changes r) (hc : Covers r x.toNat) :
    space'.view.byte x = space.view.byte x := by
  have ⟨happly, _⟩ := apply_view h hcall
  have houtcome : MappedMemory.Outcome _ _ (space.view.apply space.room call) :=
    MappedMemory.apply_outcome
  have hwf : space.view.space.WellFormed := wellFormed_view h.wellFormed
  have hm : r.asRegion ∈ space.view.space.regions := List.mem_map_of_mem hr
  have hc : Covers r.asRegion x.toNat := hc
  cases result with
  | error e =>
    rw [happly] at houtcome
    generalize space'.view = mem at houtcome
    cases houtcome
    rfl
  | ok reply =>
    have hbyte : space'.view.byte =
        MappedMemory.after space.view.byte (call.event space.view.lenAt reply) := by
      rw [happly] at houtcome
      generalize space'.view = mem at houtcome
      cases houtcome
      rfl
    rw [hbyte]
    cases call with
    | map =>
      have ⟨_, hok, _⟩ := spaceResult_eq_ok happly
      exact if_neg (MappedMemory.insert_frame hwf hm hc hok)
    | mapWithBytes =>
      have ⟨_, hok, _⟩ := spaceResult_eq_ok happly
      exact if_neg (MappedMemory.insert_frame hwf hm hc hok)
    | unmap base =>
      have ⟨_, hok, _⟩ := spaceResult_eq_ok happly
      have hne : r.base ≠ base := by simpa [MemCall.changes] using hn
      exact if_neg (MappedMemory.unmap_frame hwf hm hc hne hok)
    | read => rfl
    | write addr src =>
      have ⟨_, hok⟩ := write_eq_ok happly
      have hne : ¬r.contains addr := by simpa [MemCall.changes] using hn
      exact if_neg (MappedMemory.write_frame hwf hm hc hne hok)
    | ensureWritable => rfl
    | mmapAnon =>
      have ⟨base, hok, hreply⟩ := spaceResult_eq_ok happly
      rw [hreply]
      exact if_neg (MappedMemory.insert_frame hwf hm hc (MappedMemory.insert_of_mmapAnon hok))
    | resize base newSize =>
      have ⟨_, hok, _⟩ := spaceResult_eq_ok happly
      have hne : r.base ≠ base := by simpa [MemCall.changes] using hn
      rw [← MappedMemory.after_resize]
      exact MappedMemory.resize_frame hwf hm hc hne hok
    | mprotect => rfl

section Given

variable {base newSize minAddr : U64} {prot : Protection}

theorem Recorded.read_given (h : Recorded space log)
    (hcall : call.apply space = some (.ok reply, space'))
    (hevent : call.event space.lenAt reply = some (.gives addr bytes))
    (hx : MappedMemory.InRange addr bytes.length x) (hb : bytes[x.toNat - addr.toNat]? = some b) :
    Fallible.Returns (space'.read x 1) [b] := by
  have ⟨hsound, hbyte⟩ := (h.succeeds hcall).view_byte
  refine read_byte hsound ?_
  rw [hbyte, hevent]
  exact (if_pos hx).trans hb

theorem Recorded.read_zero (h : Recorded space log)
    (hcall : call.apply space = some (.ok reply, space'))
    (hevent : call.event space.lenAt reply = some (.gives addr (List.replicate n 0)))
    (hx : MappedMemory.InRange addr n x) : Fallible.Returns (space'.read x 1) [0] := by
  refine h.read_given hcall hevent (by rwa [List.length_replicate]) ?_
  unfold MappedMemory.InRange at hx
  rw [List.getElem?_replicate, if_pos (by omega)]

end Given

-- Every byte reads as what was last mapped or written there, whatever the address held before. A
-- call changes no other region, and what it maps or exposes is zero where no bytes are given.
theorem read_lastGiven (h : Recorded space log) :
    (∀ call : MemCall, call.allocates < 2 ^ 63 → (call.apply space).isSome) ∧
    (∀ x, (∃ r ∈ space.regions, r.contains x) →
      ∃ b, MemEvent.lastGiven log x = some b ∧ Fallible.Returns (space.read x 1) [b]) ∧
    (∀ addr len bytes, Fallible.Returns (space.read addr len) bytes →
      ∀ k < len.toNat, bytes[k]? = MemEvent.lastGiven log (addr + BitVec.ofNat 64 k)) ∧
    (∀ (call : MemCall) result space', call.apply space = some (result, space') →
      ∀ r ∈ space.regions, ¬call.changes r → ∀ x b, r.contains x →
        Fallible.Returns (space.read x 1) [b] → Fallible.Returns (space'.read x 1) [b]) ∧
    (∀ base len prot space', space.map base len prot = some (.ok (), space') →
      ∀ x, MappedMemory.InRange base len.toNat x → Fallible.Returns (space'.read x 1) [0]) ∧
    (∀ base bytes prot space', space.mapWithBytes base bytes prot = (.ok (), space') →
      ∀ x b, MappedMemory.InRange base bytes.length x → bytes[x.toNat - base.toNat]? = some b →
        Fallible.Returns (space'.read x 1) [b]) ∧
    (∀ len minAddr prot base space', space.mmapAnon len minAddr prot = some (.ok base, space') →
      ∀ x, MappedMemory.InRange base len.toNat x → Fallible.Returns (space'.read x 1) [0]) ∧
    (∀ r ∈ space.regions, ∀ newSize space',
      space.resize r.base newSize = some (.ok (), space') →
      ∀ x : U64, r.base.toNat + r.len.toNat ≤ x.toNat →
        x.toNat < r.base.toNat + newSize.toNat → Fallible.Returns (space'.read x 1) [0]) := by
  have ⟨hsound, hbyte⟩ := h.view_byte
  refine ⟨?noPanic, ?byte, ?range, ?frame, ?map, ?mapWithBytes, ?mmapAnon, ?resize⟩
  case noPanic =>
    intro call hsmall
    have ⟨_, hres, _⟩ :=
      (apply_refines hsound call).resolve_right fun hp => absurd hp.right (Nat.not_le.mpr hsmall)
    rw [hres]
    rfl
  case byte =>
    rintro x ⟨r, hr, hc⟩
    have hc := (contains_iff (hsound.wellFormed.fits hr)).mp hc
    have ⟨b, hb⟩ := view_byte_isSome hsound hr hc
    exact ⟨b, hbyte ▸ hb, read_byte hsound hb⟩
  case range =>
    intro addr len bytes hread k hk
    rw [← hbyte, (view_byte_of_read hsound hread).right.right k hk]
  case frame =>
    intro call result space' hcall r hr hn x b hc hread
    have hc := (contains_iff (hsound.wellFormed.fits hr)).mp hc
    refine read_byte (apply_view hsound hcall).right ?_
    rw [view_byte_frame hsound hcall hr hn hc]
    simpa using (view_byte_of_read hsound hread).right.right 0
  case map =>
    intro base len prot space' hmap x hx
    have hcall : MemCall.apply space (.map base len prot) = some (.ok .done, space') := by
      rw [MemCall.apply, hmap]
      rfl
    exact h.read_zero hcall rfl hx
  case mapWithBytes =>
    intro base bytes prot space' hmap x b hx hb
    have hcall : MemCall.apply space (.mapWithBytes base bytes prot) =
        some (.ok .done, space') := by
      rw [MemCall.apply, hmap]
      rfl
    exact h.read_given hcall rfl hx hb
  case mmapAnon =>
    intro len minAddr prot base space' hmap x hx
    have hcall : MemCall.apply space (.mmapAnon len minAddr prot) =
        some (.ok (.placed base), space') := by
      rw [MemCall.apply, hmap]
      rfl
    exact h.read_zero hcall rfl hx
  case resize =>
    intro r hr newSize space' hresize x hx hx'
    have hcall : MemCall.apply space (.resize r.base newSize) = some (.ok .done, space') := by
      rw [MemCall.apply, hresize]
      rfl
    have hfits : r.base.toNat + r.len.toNat < 2 ^ 64 := hsound.wellFormed.fits hr
    have hle : r.len ≤ newSize := BitVec.le_def.mpr (by omega)
    have hevent : (MemCall.resize r.base newSize).event space.lenAt .done =
        some (.gives (r.base + r.len) (List.replicate (newSize - r.len).toNat 0)) := by
      rw [MemCall.event, lenAt_of_mem hsound hr, if_pos hle]
    refine h.read_zero hcall hevent ?_
    rw [MappedMemory.InRange, BitVec.toNat_sub_of_le hle, BitVec.toNat_add, Nat.mod_eq_of_lt hfits]
    omega

-- A byte that is written and released is still in the window when its address is mapped again, and
-- reads as zero.
theorem read_lastGiven_released :
    ∃ space log space' arena, Recorded space log ∧ space.arena = some arena ∧
      arena.read 0x1000 1 = some [7] ∧ space.map 0x1000 2 .readWrite = some (.ok (), space') ∧
      MemEvent.lastGiven log 0x1000 = none ∧ Fallible.Returns (space'.read 0x1000 1) [0] := by
  have hnew := @Recorded.withArena 16 0x1000 16 _ rfl
  have hmap := @Recorded.succeeds _ _ (.map 0x1000 2 .readWrite) _ _ hnew rfl
  have hwrite := @Recorded.succeeds _ _ (.write 0x1000 [7]) _ _ hmap rfl
  have hunmap := @Recorded.succeeds _ _ (.unmap 0x1000) _ _ hwrite rfl
  have ⟨_, _, _, _, hzero, _⟩ := read_lastGiven hunmap
  exact ⟨_, _, _, _, hunmap, rfl, rfl, rfl, rfl,
    hzero 0x1000 2 .readWrite _ rfl 0x1000 (by decide)⟩

end BackedAddressSpace

end Prisma
