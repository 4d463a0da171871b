import Prisma.Orchestrator.Theorems.GuestWrites
import Prisma.Runtime.Theorems.GuestStructs
import Prisma.Session.SigSyscalls

namespace Prisma

open GuestStruct GuestMem LawfulGuestMem LawfulGuestStruct

section Exchange

variable {M ε α : Type} [GuestMem M] [LawfulGuestMem M] [GuestStruct α] [LawfulGuestStruct α]
  {fault : RangeError → ε} {mem mem' mem₁ : M} {newPtr oldPtr : U64} {current : α}
  {counts : Nat → U8}

def report (oldPtr : U64) (bytes : List U8) : List GuestWrite :=
  if oldPtr = 0 then [] else [⟨oldPtr, bytes⟩]

theorem report_of_ne (hz : oldPtr ≠ 0) : report oldPtr bytes = [⟨oldPtr, bytes⟩] :=
  if_neg hz

theorem reportOld_follows :
    Follows fault (reportOld fault oldPtr current : Stateful ε M Unit)
      (report oldPtr (toGuestBytes current)) (.ok ()) := by
  unfold reportOld report
  split
  case isTrue => exact .pure
  case isFalse =>
    have hl : (toGuestBytes current).length < 2 ^ 64 :=
      (length_toGuestBytes current).symm ▸ @size_lt α _ _
    exact .store (w := ⟨oldPtr, toGuestBytes current⟩) hl

-- What can come of the new pointer.
inductive Fetched (fault : RangeError → ε) (mem : M) (newPtr : U64) :
    Option (Except ε (Option α) × M) → Prop
  | null (h : newPtr = 0) : Fetched fault mem newPtr (some (.ok none, mem))
  | refused (e : RangeError) (h : newPtr ≠ 0)
    (hn : ¬Readable mem newPtr (BitVec.ofNat 64 (size α))) :
    Fetched fault mem newPtr (some (.error (fault e), mem))
  | read {bytes : List U8} {new : α} (h : newPtr ≠ 0)
    (hread : Fallible.Returns (GuestMem.read mem newPtr (BitVec.ofNat 64 (size α))) bytes)
    (hnew : fromGuestBytes bytes = some new) : Fetched fault mem newPtr (some (.ok (some new), mem))

theorem toNat_size : (BitVec.ofNat 64 (size α)).toNat = size α :=
  Nat.mod_eq_of_lt (@size_lt α _ _)

theorem fetchNew_fetched (h : Valid mem) :
    Fetched fault mem newPtr (fetchNew fault newPtr mem : Option (Except ε (Option α) × M)) := by
  unfold fetchNew
  split
  case isTrue hz => exact .null hz
  case isFalse hz =>
    have ⟨result, hrun⟩ := @read_runs M _ _ mem newPtr (BitVec.ofNat 64 (size α)) h
    cases result with
    | error e =>
      have hload : GuestMem.load fault newPtr (BitVec.ofNat 64 (size α)) mem =
          some (.error (fault e), mem) := by
        rw [GuestMem.load, hrun]
        rfl
      rw [Stateful.bind_of_error hload]
      refine .refused e hz ?_
      rintro ⟨bytes, hread⟩
      nomatch hread.symm.trans hrun
    | ok bytes =>
      have hload : GuestMem.load fault newPtr (BitVec.ofNat 64 (size α)) mem =
          some (.ok bytes, mem) := by
        rw [GuestMem.load, hrun]
        rfl
      have ⟨_, hlen, _⟩ := read_returns h hrun
      have ⟨new, hnew⟩ : ∃ new : α, fromGuestBytes bytes = some new :=
        fromGuestBytes_isSome (hlen.trans toNat_size)
      rw [Stateful.bind_of_ok hload, hnew]
      exact .read hz hrun hnew

theorem exchange_cases (h : Valid mem) :
    (oldPtr ≠ 0 ∧ ¬Writable mem oldPtr (BitVec.ofNat 64 (size α)) ∧
      ∃ e mem₁, Performed mem [] mem₁ ∧
        exchange fault newPtr oldPtr current mem = some (.error (fault e), mem₁)) ∨
    ((oldPtr ≠ 0 → Writable mem oldPtr (BitVec.ofNat 64 (size α))) ∧
      ∃ mem₁, Performed mem (report oldPtr (toGuestBytes current)) mem₁ ∧
        Fetched fault mem₁ newPtr (exchange fault newPtr oldPtr current mem)) := by
  have hsize : (toGuestBytes current).length = size α := length_toGuestBytes current
  match @reportOld_follows M ε α _ _ _ _ fault oldPtr current mem h with
  | .inl ⟨done, w, rest, e, mem₁, hws, hdone, hw, hrun⟩ =>
    unfold report at hws
    split at hws
    case isTrue => simp at hws
    case isFalse hz =>
      cases done with
      | cons => simp at hws
      | nil =>
        have hwrite : w = ⟨oldPtr, toGuestBytes current⟩ := (List.cons.inj hws).left.symm
        rw [hwrite, GuestWrite.Accepted, hsize] at hw
        exact .inl ⟨hz, hw, e, mem₁, hdone, Stateful.bind_of_error hrun⟩
  | .inr ⟨mem₁, hdone, hrun⟩ =>
    refine .inr ⟨fun hz => ?_, mem₁, hdone, ?_⟩
    · have haccepted := hdone.accepted ⟨oldPtr, toGuestBytes current⟩ (report_of_ne hz ▸ .head _)
      rwa [GuestWrite.Accepted, hsize] at haccepted
    · rw [exchange, Stateful.bind_of_ok hrun]
      exact fetchNew_fetched hdone.valid

-- The value that is reported does not change a bit that counts of the value at the new pointer.
def Undisturbed (counts : Nat → U8) (mem : M) (newPtr oldPtr : U64) (old : List U8) : Prop :=
  newPtr ≠ 0 → oldPtr ≠ 0 → ∀ (k : Nat) (a b : U8), k < old.length →
    GuestMem.byte mem (newPtr + BitVec.ofNat 64 k) = some a →
    MappedMemory.InRange oldPtr old.length (newPtr + BitVec.ofNat 64 k) →
    old[(newPtr + BitVec.ofNat 64 k).toNat - oldPtr.toNat]? = some b →
    a &&& counts k = b &&& counts k

theorem byte_of_report (hdone : Performed mem (report oldPtr old) mem₁) (x : U64) :
    GuestMem.byte mem₁ x =
      if oldPtr ≠ 0 ∧ MappedMemory.InRange oldPtr old.length x then
        old[x.toNat - oldPtr.toNat]?
      else GuestMem.byte mem x := by
  rw [hdone.bytes]
  by_cases hz : oldPtr = 0
  case pos => rw [report, if_pos hz, if_neg fun hin => hin.left hz, GuestWrite.giveAll]
  case neg =>
    rw [report_of_ne hz, GuestWrite.giveAll, GuestWrite.giveAll, MappedMemory.give]
    simp only [ne_eq, hz, not_false_eq_true, true_and]

theorem agreeOn_iff_undisturbed {old : List U8} {len : U64} (h : Valid mem) (hz : newPtr ≠ 0)
    (hlen : len.toNat = old.length) (hdone : Performed mem (report oldPtr old) mem₁)
    (hstored : Fallible.Returns (GuestMem.read mem newPtr len) stored)
    (hread : Fallible.Returns (GuestMem.read mem₁ newPtr len) found) :
    AgreeOn counts stored found ↔ Undisturbed counts mem newPtr oldPtr old := by
  have ⟨_, hl, hs⟩ := read_returns h hstored
  have ⟨_, hl', hr⟩ := read_returns hdone.valid hread
  rw [hlen] at hl hl' hs hr
  constructor
  · intro hagree _ hold k a b hk ha hin hb
    refine hagree k a b ?_ ?_
    · rw [← hs k hk, ha]
    · rw [← hr k hk, byte_of_report hdone, if_pos ⟨hold, hin⟩, hb]
  · intro hund k a b ha hb
    have ⟨hk, _⟩ := List.getElem?_eq_some_iff.mp ha
    rw [← hs k (by omega)] at ha
    rw [← hr k (by omega), byte_of_report hdone] at hb
    split at hb
    case isTrue hin => exact hund hz hin.left k a b (by omega) ha hin.right hb
    case isFalse => rw [Option.some_inj.mp (ha.symm.trans hb)]

-- The structure at an address.
def StoredAt (mem : M) (ptr : U64) (v : α) : Prop :=
  ∃ bytes, Fallible.Returns (GuestMem.read mem ptr (BitVec.ofNat 64 (size α))) bytes ∧
    fromGuestBytes bytes = some v

def ReportedAt (mem : M) (ptr : U64) (v : α) : Prop :=
  Fallible.Returns (GuestMem.read mem ptr (BitVec.ofNat 64 (size α))) (toGuestBytes v)

theorem reportedAt (h : Valid mem) (hz : oldPtr ≠ 0)
    (hdone : Performed mem (report oldPtr (toGuestBytes current)) mem₁) :
    ReportedAt mem₁ oldPtr current := by
  have hsize : (toGuestBytes current).length = size α := length_toGuestBytes current
  rw [report_of_ne hz] at hdone
  have hread := hdone.read h (List.pairwise_singleton ..) (.head _)
    (show (toGuestBytes current).length < 2 ^ 64 from hsize ▸ @size_lt α _ _)
  rwa [hsize] at hread

theorem exchange_ok (h : Valid mem)
    (hrun : exchange fault newPtr oldPtr current mem = some (.ok new, mem')) :
    Performed mem (report oldPtr (toGuestBytes current)) mem' ∧
    ((newPtr = 0 ∧ new = none) ∨
      newPtr ≠ 0 ∧ ∃ stored found v,
        Fallible.Returns (GuestMem.read mem newPtr (BitVec.ofNat 64 (size α))) stored ∧
        Fallible.Returns (GuestMem.read mem' newPtr (BitVec.ofNat 64 (size α))) found ∧
        fromGuestBytes found = some v ∧ new = some v) := by
  match @exchange_cases M ε α _ _ _ _ fault mem newPtr oldPtr current h with
  | .inl ⟨_, _, e, mem₁, _, herror⟩ => nomatch hrun.symm.trans herror
  | .inr ⟨_, mem₁, hdone, hfetched⟩ =>
    rw [hrun] at hfetched
    cases hfetched with
    | null hz => exact ⟨hdone, .inl ⟨hz, rfl⟩⟩
    | read hz hread hnew =>
      have ⟨stored, hstored⟩ := (hdone.ranges.readable ..).mp ⟨_, hread⟩
      exact ⟨hdone, .inr ⟨hz, stored, _, _, hstored, hread, hnew, rfl⟩⟩

theorem storedAt_iff {stored found : List U8} {v : α} (h : Valid mem) (hz : newPtr ≠ 0)
    (hdone : Performed mem (report oldPtr (toGuestBytes current)) mem₁)
    (hstored : Fallible.Returns (GuestMem.read mem newPtr (BitVec.ofNat 64 (size α))) stored)
    (hread : Fallible.Returns (GuestMem.read mem₁ newPtr (BitVec.ofNat 64 (size α))) found)
    (hv : fromGuestBytes found = some v) :
    StoredAt mem newPtr v ↔
      Undisturbed (LawfulGuestStruct.counts α) mem newPtr oldPtr (toGuestBytes current) := by
  have hlen : (BitVec.ofNat 64 (size α)).toNat = (toGuestBytes current).length := by
    rw [toNat_size, length_toGuestBytes]
  have ⟨_, hl, _⟩ := read_returns h hstored
  have ⟨_, hl', _⟩ := read_returns hdone.valid hread
  rw [toNat_size] at hl hl'
  rw [← agreeOn_iff_undisturbed h hz hlen hdone hstored hread, ← fromGuestBytes_eq_iff hl hl', hv]
  constructor
  · rintro ⟨bytes, hbytes, hfrom⟩
    cases hstored.symm.trans hbytes
    exact hfrom
  · exact fun hfrom => ⟨stored, hstored, hfrom⟩

-- The report is written, and some byte of it was not there before.
def Alters (mem : M) (oldPtr : U64) (old : List U8) : Prop :=
  oldPtr ≠ 0 ∧ Writable mem oldPtr (BitVec.ofNat 64 old.length) ∧
    ∃ x, MappedMemory.InRange oldPtr old.length x ∧
      GuestMem.byte mem x ≠ old[x.toNat - oldPtr.toNat]?

theorem byte_eq_iff_not_alters (hdone : Performed mem (report oldPtr old) mem₁) :
    (∀ x, GuestMem.byte mem₁ x = GuestMem.byte mem x) ↔ ¬Alters mem oldPtr old := by
  constructor
  · rintro hsame ⟨hz, _, x, hin, hne⟩
    rw [← hsame, byte_of_report hdone, if_pos ⟨hz, hin⟩] at hne
    exact hne rfl
  · intro halters x
    rw [byte_of_report hdone]
    split
    case isTrue hin =>
      have haccepted := hdone.accepted ⟨oldPtr, old⟩ (report_of_ne hin.left ▸ .head _)
      by_contra hne
      exact halters ⟨hin.left, haccepted, x, hin.right, Ne.symm hne⟩
    case isFalse => rfl

theorem exchange_installs_iff {new : Option α} (h : Valid mem)
    (hrun : exchange fault newPtr oldPtr current mem = some (.ok new, mem')) :
    (((newPtr = 0 → new.getD current = current) ∧
        (newPtr ≠ 0 → StoredAt mem newPtr (new.getD current))) ∧
      (oldPtr ≠ 0 → ReportedAt mem' oldPtr current)) ↔
    Undisturbed (LawfulGuestStruct.counts α) mem newPtr oldPtr (toGuestBytes current) := by
  have ⟨hdone, hnew⟩ := exchange_ok h hrun
  have hreport : oldPtr ≠ 0 → ReportedAt mem' oldPtr current :=
    fun hold => reportedAt h hold hdone
  match hnew with
  | .inl ⟨hz, he⟩ =>
    subst he
    exact ⟨fun _ hne => absurd hz hne, fun _ => ⟨⟨fun _ => rfl, fun hne => absurd hz hne⟩, hreport⟩⟩
  | .inr ⟨hz, stored, found, v, hstored, hread, hv, he⟩ =>
    subst he
    have hiff := storedAt_iff h hz hdone hstored hread hv
    exact ⟨fun hp => hiff.mp (hp.left.right hz),
      fun hu => ⟨⟨fun h0 => absurd h0 hz, fun _ => hiff.mpr hu⟩, hreport⟩⟩

end Exchange

namespace SigSyscalls

variable {M : Type} [GuestMem M] {mem mem' : M} {state state' : SignalState}

theorem setAction_inj (ha : state.setAction sig a = some state')
    (hb : state.setAction sig b = some state') : a = b := by
  unfold SignalState.setAction at ha hb
  split at ha
  · nomatch ha
  case isFalse hs =>
    rw [if_neg hs] at hb
    have hactions := congrArg SignalState.actions (Option.some_inj.mp (ha.trans hb.symm))
    simpa using congrFun hactions sig

theorem setAction_eq_none_iff (hcurrent : state.action sig = some current) :
    state.setAction sig new = none ↔ sig = sigkill ∨ sig = sigstop := by
  have hvalid : validSignal sig := by
    by_contra hn
    rw [SignalState.action, if_neg hn] at hcurrent
    nomatch hcurrent
  simp [SignalState.setAction, hvalid, or_iff_not_imp_left]

theorem rtSigaction_ok (hrun : rtSigaction sig act old (state, mem) = some (.ok (), (state', mem'))) :
    ∃ current new, state.action sig = some current ∧
      exchange SigError.fault act old current mem = some (.ok new, mem') ∧
      ((new = none ∧ state' = state) ∨ ∃ v, new = some v ∧ state.setAction sig v = some state') := by
  dsimp only [rtSigaction] at hrun
  split at hrun
  · nomatch hrun
  case _ current hcurrent =>
    split at hrun
    · nomatch hrun
    · nomatch hrun
    case _ hok =>
      cases hrun
      exact ⟨current, none, hcurrent, hok, .inl ⟨rfl, rfl⟩⟩
    case _ v _ hok =>
      split at hrun
      case _ hset =>
        cases hrun
        exact ⟨current, some v, hcurrent, hok, .inr ⟨v, rfl, hset⟩⟩
      · nomatch hrun

theorem rtSigprocmask_ok {how : U32} {set old : U64}
    (hrun : rtSigprocmask how set old (state, mem) = some (.ok (), (state', mem'))) :
    ∃ new, exchange SigError.fault set old state.blocked mem = some (.ok new, mem') ∧
      ((set = 0 ∧ state' = state) ∨
        set ≠ 0 ∧ ∃ kind, SigprocmaskHow.fromRaw how = some kind ∧
          ((new = none ∧ state' = state) ∨ ∃ v, new = some v ∧ state' = state.setMask kind v)) := by
  dsimp only [rtSigprocmask] at hrun
  split at hrun
  · nomatch hrun
  case _ kind? hkind =>
    split at hrun
    · nomatch hrun
    · nomatch hrun
    case _ new _ hok =>
      refine ⟨new, ?_⟩
      split at hkind
      case isTrue hz =>
        cases hkind
        cases hrun
        exact ⟨hok, .inl ⟨hz, rfl⟩⟩
      case isFalse hz =>
        have ⟨kind, hraw, he⟩ := Option.map_eq_some_iff.mp hkind
        subst he
        cases new with
        | none =>
          cases hrun
          exact ⟨hok, .inr ⟨hz, kind, hraw, .inl ⟨rfl, rfl⟩⟩⟩
        | some v =>
          cases hrun
          exact ⟨hok, .inr ⟨hz, kind, hraw, .inr ⟨v, rfl, rfl⟩⟩⟩

section Calls

variable {how : U32} {set old : U64} {mem₁ : M}

theorem how_decoded (h : ¬(set ≠ 0 ∧ SigprocmaskHow.fromRaw how = none)) :
    ∃ kind, (if set = 0 then some none else (SigprocmaskHow.fromRaw how).map some) = some kind ∧
      (set ≠ 0 → (SigprocmaskHow.fromRaw how).isSome) := by
  by_cases hz : set = 0
  case pos => exact ⟨none, if_pos hz, fun hne => absurd hz hne⟩
  case neg =>
    have ⟨kind, hkind⟩ := Option.ne_none_iff_exists'.mp fun hnone => h ⟨hz, hnone⟩
    exact ⟨some kind, by rw [if_neg hz, hkind]; rfl, fun _ => by rw [hkind]; rfl⟩

theorem rtSigprocmask_of_error
    (hkind : (if set = 0 then some none else (SigprocmaskHow.fromRaw how).map some) = some kind)
    (hex : exchange SigError.fault set old state.blocked mem = some (.error e, mem₁)) :
    rtSigprocmask how set old (state, mem) = some (.error e, (state, mem₁)) := by
  dsimp only [rtSigprocmask]
  rw [hkind]
  dsimp only
  rw [hex]

theorem rtSigprocmask_of_ok
    (hkind : (if set = 0 then some none else (SigprocmaskHow.fromRaw how).map some) = some kind)
    (hex : exchange SigError.fault set old state.blocked mem = some (.ok new, mem₁)) :
    ∃ state', rtSigprocmask how set old (state, mem) = some (.ok (), (state', mem₁)) := by
  dsimp only [rtSigprocmask]
  rw [hkind]
  dsimp only
  rw [hex]
  cases kind <;> cases new <;> exact ⟨_, rfl⟩

theorem rtSigaction_of_error (hcurrent : state.action sig = some current)
    (hex : exchange SigError.fault act old current mem = some (.error e, mem₁)) :
    rtSigaction sig act old (state, mem) = some (.error e, (state, mem₁)) := by
  simp only [rtSigaction, hcurrent, hex]

end Calls

-- The memory and the signals are as they were after every error of a call.
def ErrorsLeave (call : Stateful SigError (SignalState × M) Unit) (state : SignalState) (mem : M) :
    Prop :=
  ∀ e state' mem', call (state, mem) = some (.error e, (state', mem')) →
    state' = state ∧ ∀ x, GuestMem.byte mem' x = GuestMem.byte mem x

section Errors

variable {call : Stateful SigError (SignalState × M) Unit} {mem₁ : M} {e : SigError}

theorem errorsLeave_of_ok (h : call (state, mem) = some (.ok (), (state', mem'))) :
    ErrorsLeave call state mem :=
  fun _ _ _ herror => nomatch h.symm.trans herror

theorem errorsLeave_of_error (h : call (state, mem) = some (.error e, (state, mem₁))) :
    ErrorsLeave call state mem ↔ ∀ x, GuestMem.byte mem₁ x = GuestMem.byte mem x := by
  constructor
  · exact fun hleave => (hleave _ _ _ h).right
  · intro hsame _ _ _ herror
    cases h.symm.trans herror
    exact ⟨rfl, hsame⟩

end Errors

variable [LawfulGuestMem M]

theorem storedMask_iff {kind : SigprocmaskHow} {set old : U64} {stored found : List U8}
    {v : Sigset} (h : Valid mem) (hz : set ≠ 0)
    (hdone : Performed mem (report old (toGuestBytes state.blocked)) mem')
    (hstored : Fallible.Returns (GuestMem.read mem set 8) stored)
    (hread : Fallible.Returns (GuestMem.read mem' set 8) found)
    (hv : fromGuestBytes found = some v) :
    (∃ new, StoredAt mem set new ∧ state.setMask kind v = state.setMask kind new) ↔
      Undisturbed (state.blocked.maskBytes kind) mem set old (toGuestBytes state.blocked) := by
  have hlen : (8 : U64).toNat = (toGuestBytes state.blocked).length :=
    (length_toGuestBytes state.blocked).symm
  have ⟨_, hl, _⟩ := read_returns h hstored
  have ⟨_, hl', _⟩ := read_returns hdone.valid hread
  have hl : stored.length = 8 := hl
  have hl' : found.length = 8 := hl'
  have hfound : v = ⟨field 8 found 0⟩ := by
    have hfrom : fromGuestBytes found = some (⟨field 8 found 0⟩ : Sigset) := if_pos hl'.ge
    exact Option.some_inj.mp (hv.symm.trans hfrom)
  have hsets : ∀ a b : Sigset, state.setMask kind a = state.setMask kind b ↔
      state.blocked.apply kind a = state.blocked.apply kind b :=
    fun a b => ⟨congrArg SignalState.blocked, fun he => by rw [SignalState.setMask, he]; rfl⟩
  rw [← agreeOn_iff_undisturbed h hz hlen hdone hstored hread,
    ← Sigset.apply_field_eq_iff hl hl', hfound]
  constructor
  · rintro ⟨new, ⟨bytes, hbytes, hfrom⟩, he⟩
    cases hstored.symm.trans hbytes
    have hnew : fromGuestBytes stored = some (⟨field 8 stored 0⟩ : Sigset) := if_pos hl.ge
    cases hnew.symm.trans hfrom
    exact ((hsets _ _).mp he).symm
  · intro he
    exact ⟨⟨field 8 stored 0⟩, ⟨stored, hstored, if_pos hl.ge⟩, (hsets _ _).mpr he.symm⟩

theorem rtSigprocmask_installs_iff {how : U32} {set old : U64} (h : Valid mem)
    (hrun : rtSigprocmask how set old (state, mem) = some (.ok (), (state', mem'))) :
    (((set = 0 → state' = state) ∧
        (set ≠ 0 → ∃ kind new, SigprocmaskHow.fromRaw how = some kind ∧ StoredAt mem set new ∧
          state' = state.setMask kind new)) ∧
      (old ≠ 0 → ReportedAt mem' old state.blocked)) ↔
    ∀ kind, SigprocmaskHow.fromRaw how = some kind →
      Undisturbed (state.blocked.maskBytes kind) mem set old (toGuestBytes state.blocked) := by
  have ⟨new, hexchange, hstate⟩ := rtSigprocmask_ok hrun
  have ⟨hdone, hnew⟩ := exchange_ok h hexchange
  have hreport : old ≠ 0 → ReportedAt mem' old state.blocked :=
    fun hold => reportedAt h hold hdone
  match hstate, hnew with
  | .inl ⟨hz, he⟩, _ =>
    exact ⟨fun _ _ _ hne => absurd hz hne,
      fun _ => ⟨⟨fun _ => he, fun hne => absurd hz hne⟩, hreport⟩⟩
  | .inr ⟨hz, _⟩, .inl ⟨hz', _⟩ => exact absurd hz' hz
  | .inr ⟨hz, kind, hraw, .inl ⟨hnone, _⟩⟩, .inr ⟨_, _, _, v, _, _, _, hsome⟩ =>
    nomatch hnone.symm.trans hsome
  | .inr ⟨hz, kind, hraw, .inr ⟨v, hsome, he⟩⟩, .inr ⟨_, stored, found, v', hs, hr, hv, hsome'⟩ =>
    cases hsome.symm.trans hsome'
    have hiff : (∃ new, StoredAt mem set new ∧ state.setMask kind v = _) ↔ _ :=
      storedMask_iff h hz hdone hs hr hv
    constructor
    · rintro ⟨⟨_, hinst⟩, _⟩ kind' hraw'
      cases hraw.symm.trans hraw'
      have ⟨_, new', hraw'', hst, he'⟩ := hinst hz
      cases hraw.symm.trans hraw''
      exact hiff.mp ⟨new', hst, he.symm.trans he'⟩
    · intro hund
      have ⟨new', hst, he'⟩ := hiff.mpr (hund kind hraw)
      exact ⟨⟨fun h0 => absurd h0 hz, fun _ => ⟨kind, new', hraw, hst, he.trans he'⟩⟩, hreport⟩

theorem rtSigaction_installs_iff {sig : U32} {act old : U64} (h : Valid mem)
    (hrun : rtSigaction sig act old (state, mem) = some (.ok (), (state', mem'))) :
    ∃ current, state.action sig = some current ∧
      ((((act = 0 → state' = state) ∧
          (act ≠ 0 → ∃ new, StoredAt mem act new ∧ state.setAction sig new = some state')) ∧
        (old ≠ 0 → ReportedAt mem' old current)) ↔
      Undisturbed (counts SigAction) mem act old (toGuestBytes current)) := by
  have ⟨current, new, hcurrent, hexchange, hstate⟩ := rtSigaction_ok hrun
  refine ⟨current, hcurrent, ?_⟩
  have ⟨hdone, hnew⟩ := exchange_ok h hexchange
  have hreport : old ≠ 0 → ReportedAt mem' old current := fun hold => reportedAt h hold hdone
  match hstate, hnew with
  | .inl ⟨_, he⟩, .inl ⟨hz, _⟩ =>
    exact ⟨fun _ hne => absurd hz hne,
      fun _ => ⟨⟨fun _ => he, fun hne => absurd hz hne⟩, hreport⟩⟩
  | .inl ⟨hnone, _⟩, .inr ⟨_, _, _, _, _, _, _, hsome⟩ => nomatch hnone.symm.trans hsome
  | .inr ⟨_, hsome, _⟩, .inl ⟨_, hnone⟩ => nomatch hnone.symm.trans hsome
  | .inr ⟨v, hsome, hset⟩, .inr ⟨hz, stored, found, v', hs, hr, hv, hsome'⟩ =>
    cases hsome.symm.trans hsome'
    have hiff := storedAt_iff h hz hdone hs hr hv
    constructor
    · rintro ⟨⟨_, hinst⟩, _⟩
      have ⟨new', hst, hset'⟩ := hinst hz
      rw [← setAction_inj hset hset'] at hst
      exact hiff.mp hst
    · exact fun hund => ⟨⟨fun h0 => absurd h0 hz, fun _ => ⟨v, hiff.mpr hund, hset⟩⟩, hreport⟩

-- A call installs the value that was stored before it, and reports the value in force before it,
-- exactly if its report leaves the value to install undisturbed. The report comes first, so it
-- may overwrite that value.
theorem installsStored_iff (h : Valid mem) :
    (∀ how set old state state',
      rtSigprocmask how set old (state, mem) = some (.ok (), (state', mem')) →
      ((((set = 0 → state' = state) ∧
          (set ≠ 0 → ∃ kind new, SigprocmaskHow.fromRaw how = some kind ∧ StoredAt mem set new ∧
            state' = state.setMask kind new)) ∧
        (old ≠ 0 → ReportedAt mem' old state.blocked)) ↔
      ∀ kind, SigprocmaskHow.fromRaw how = some kind →
        Undisturbed (state.blocked.maskBytes kind) mem set old (toGuestBytes state.blocked))) ∧
    (∀ sig act old state state',
      rtSigaction sig act old (state, mem) = some (.ok (), (state', mem')) →
      ∃ current, state.action sig = some current ∧
      ((((act = 0 → state' = state) ∧
          (act ≠ 0 → ∃ new, StoredAt mem act new ∧ state.setAction sig new = some state')) ∧
        (old ≠ 0 → ReportedAt mem' old current)) ↔
      Undisturbed (counts SigAction) mem act old (toGuestBytes current))) ∧
    (∀ ss old current next, sigaltstack ss old current mem = some (.ok next, mem') →
      ((((ss = 0 → next = current) ∧ (ss ≠ 0 → StoredAt mem ss next)) ∧
        (old ≠ 0 → ReportedAt mem' old current)) ↔
      Undisturbed (counts SigAltStack) mem ss old (toGuestBytes current))) ∧
    ∀ new old current next, TimeSyscalls.setitimer new old current mem = some (.ok next, mem') →
      ((((new = 0 → next = current) ∧ (new ≠ 0 → StoredAt mem new next)) ∧
        (old ≠ 0 → ReportedAt mem' old current)) ↔
      Undisturbed (counts ITimerval) mem new old (toGuestBytes current)) := by
  refine ⟨fun _ _ _ _ _ hrun => rtSigprocmask_installs_iff h hrun,
    fun _ _ _ _ _ hrun => rtSigaction_installs_iff h hrun, fun ss old current next hrun => ?_,
    fun new old current next hrun => ?_⟩
  · have ⟨new, hexchange, he⟩ := Stateful.ok_of_bind_pure hrun
    exact he ▸ exchange_installs_iff h hexchange
  · have ⟨new, hexchange, he⟩ := Stateful.ok_of_bind_pure hrun
    exact he ▸ exchange_installs_iff h hexchange

-- A mask with one signal.
def maskRegion : GuestRegion :=
  ⟨0x1000, .readWrite, [2, 0, 0, 0, 0, 0, 0, 0]⟩

theorem installsStored_iff_maskRegion :
    ∃ state' mem', rtSigprocmask 2 0x1000 0 (.new, maskRegion) = some (.ok (), (state', mem')) ∧
      ∃ kind new, SigprocmaskHow.fromRaw 2 = some kind ∧ StoredAt maskRegion 0x1000 new ∧
        state' = SignalState.new.setMask kind new := by
  refine ⟨SignalState.new.setMask .setMask ⟨2⟩, maskRegion, rfl, ?_⟩
  have hiff := (installsStored_iff (show Valid maskRegion from trivial)).left 2 0x1000 0 .new _ rfl
  have hundisturbed : ∀ kind, SigprocmaskHow.fromRaw 2 = some kind →
      Undisturbed (SignalState.new.blocked.maskBytes kind) maskRegion 0x1000 0
        (toGuestBytes SignalState.new.blocked) := fun _ _ _ hold => absurd rfl hold
  exact (hiff.mpr hundisturbed).left.right (by decide)

-- The old mask goes over the new one, which is then the empty mask.
theorem not_installsStored :
    ¬∀ (mem mem' : GuestRegion) how set old state state',
      rtSigprocmask how set old (state, mem) = some (.ok (), (state', mem')) →
      ((set = 0 → state' = state) ∧
        (set ≠ 0 → ∃ kind new, SigprocmaskHow.fromRaw how = some kind ∧ StoredAt mem set new ∧
          state' = state.setMask kind new)) ∧
      (old ≠ 0 → ReportedAt mem' old state.blocked) := by
  intro h
  have ⟨kind, new, hraw, ⟨bytes, hbytes, hnew⟩, hstate⟩ :=
    (h maskRegion _ 2 0x1000 0x1000 .new _ rfl).left.right (by decide)
  have hkind : SigprocmaskHow.fromRaw 2 = some .setMask := rfl
  have hread : Fallible.Returns (GuestMem.read maskRegion 0x1000 8) maskRegion.bytes := rfl
  have hfrom : fromGuestBytes maskRegion.bytes = some (⟨2⟩ : Sigset) := rfl
  cases hkind.symm.trans hraw
  cases hread.symm.trans hbytes
  cases hfrom.symm.trans hnew
  exact absurd (congrArg SignalState.blocked hstate) (by decide)

theorem errorsLeave_behind_report {p : Prop} (hp : p)
    (hdone : Performed mem (report old bytes) mem₁)
    (herror : call (state, mem) = some (.error e, (state, mem₁))) :
    ErrorsLeave call state mem ↔ ¬(Alters mem old bytes ∧ p) := by
  rw [errorsLeave_of_error herror, byte_eq_iff_not_alters hdone, and_iff_left hp]

theorem errorsLeave_of_refused (hdone : Performed mem [] mem₁)
    (herror : call (state, mem) = some (.error e, (state, mem₁))) : ErrorsLeave call state mem :=
  (errorsLeave_of_error herror).mpr fun x => congrFun hdone.bytes x

theorem rtSigprocmask_errorsLeave_iff (h : Valid mem) (how : U32) (set old : U64) :
    ErrorsLeave (rtSigprocmask how set old) state mem ↔
      ¬(Alters mem old (toGuestBytes state.blocked) ∧ set ≠ 0 ∧
        (SigprocmaskHow.fromRaw how).isSome ∧ ¬Readable mem set 8) := by
  by_cases hbad : set ≠ 0 ∧ SigprocmaskHow.fromRaw how = none
  case pos =>
    have herror : rtSigprocmask how set old (state, mem) =
        some (.error (.badHow how), (state, mem)) := by
      dsimp only [rtSigprocmask]
      rw [if_neg hbad.left, hbad.right]
      rfl
    refine iff_of_true ((errorsLeave_of_error herror).mpr fun _ => rfl) ?_
    rintro ⟨_, _, hsome, _⟩
    rw [hbad.right] at hsome
    nomatch hsome
  case neg =>
    have ⟨kind, hkind, hhow⟩ := how_decoded hbad
    match @exchange_cases M _ _ _ _ _ _ SigError.fault mem set old state.blocked h with
    | .inl ⟨_, hw, e, mem₁, hdone, hex⟩ =>
      exact iff_of_true (errorsLeave_of_refused hdone (rtSigprocmask_of_error hkind hex))
        fun hand => hw hand.left.right.left
    | .inr ⟨hw, mem₁, hdone, hfetched⟩ =>
      generalize hex : exchange SigError.fault set old state.blocked mem = result at hfetched
      cases hfetched with
      | null hz =>
        have ⟨_, hok⟩ := rtSigprocmask_of_ok hkind hex
        exact iff_of_true (errorsLeave_of_ok hok) fun hand => hand.right.left hz
      | refused e hz hn =>
        refine errorsLeave_behind_report ⟨hz, hhow hz, ?_⟩ hdone (rtSigprocmask_of_error hkind hex)
        exact mt (hdone.ranges.readable ..).mpr hn
      | read hz hread =>
        have ⟨_, hok⟩ := rtSigprocmask_of_ok hkind hex
        refine iff_of_true (errorsLeave_of_ok hok) fun hand => hand.right.right.right ?_
        exact (hdone.ranges.readable ..).mp ⟨_, hread⟩

theorem rtSigaction_errorsLeave_iff (h : Valid mem) (sig : U32) (act old : U64) :
    ErrorsLeave (rtSigaction sig act old) state mem ↔
      ∀ current, state.action sig = some current →
        ¬(Alters mem old (toGuestBytes current) ∧ act ≠ 0 ∧
          (¬Readable mem act 32 ∨ sig = sigkill ∨ sig = sigstop)) := by
  match hcurrent : state.action sig with
  | none =>
    have herror : rtSigaction sig act old (state, mem) =
        some (.error (.badSignal sig), (state, mem)) := by
      dsimp only [rtSigaction]
      rw [hcurrent]
    exact iff_of_true ((errorsLeave_of_error herror).mpr fun _ => rfl) fun _ hsome => nomatch hsome
  | some current =>
    simp only [Option.some.injEq, forall_eq']
    match @exchange_cases M _ _ _ _ _ _ SigError.fault mem act old current h with
    | .inl ⟨_, hw, e, mem₁, hdone, hex⟩ =>
      exact iff_of_true (errorsLeave_of_refused hdone (rtSigaction_of_error hcurrent hex))
        fun hand => hw hand.left.right.left
    | .inr ⟨hw, mem₁, hdone, hfetched⟩ =>
      generalize hex : exchange SigError.fault act old current mem = result at hfetched
      cases hfetched with
      | null hz =>
        have hok : rtSigaction sig act old (state, mem) = some (.ok (), (state, mem₁)) := by
          simp only [rtSigaction, hcurrent, hex]
        exact iff_of_true (errorsLeave_of_ok hok) fun hand => hand.right.left hz
      | refused e hz hn =>
        have hunread : ¬Readable mem act 32 := mt (hdone.ranges.readable ..).mpr hn
        exact errorsLeave_behind_report ⟨hz, .inl hunread⟩ hdone
          (rtSigaction_of_error hcurrent hex)
      | @read bytes new hz hread =>
        have hreadable : Readable mem act 32 := (hdone.ranges.readable ..).mp ⟨_, hread⟩
        match hset : state.setAction sig new with
        | none =>
          have herror : rtSigaction sig act old (state, mem) =
              some (.error (.badSignal sig), (state, mem₁)) := by
            simp only [rtSigaction, hcurrent, hex, hset]
          have hfixed := (setAction_eq_none_iff hcurrent).mp hset
          exact errorsLeave_behind_report ⟨hz, .inr hfixed⟩ hdone herror
        | some state' =>
          have hok : rtSigaction sig act old (state, mem) = some (.ok (), (state', mem₁)) := by
            simp only [rtSigaction, hcurrent, hex, hset]
          refine iff_of_true (errorsLeave_of_ok hok) ?_
          rintro ⟨_, _, hunread | hfixed⟩
          · exact hunread hreadable
          · nomatch hset.symm.trans ((setAction_eq_none_iff hcurrent).mpr hfixed)

-- A call that fails leaves the signals and the memory as they were, unless it fails behind a
-- report that changed some byte: the pointer to the new value is looked at after the report, and
-- so is whether the signal's action can be changed.
theorem errorsLeave_iff (h : Valid mem) (state : SignalState) :
    (∀ how set old, ErrorsLeave (rtSigprocmask how set old) state mem ↔
      ¬(Alters mem old (toGuestBytes state.blocked) ∧ set ≠ 0 ∧
        (SigprocmaskHow.fromRaw how).isSome ∧ ¬Readable mem set 8)) ∧
    ∀ sig act old, ErrorsLeave (rtSigaction sig act old) state mem ↔
      ∀ current, state.action sig = some current →
        ¬(Alters mem old (toGuestBytes current) ∧ act ≠ 0 ∧
          (¬Readable mem act 32 ∨ sig = sigkill ∨ sig = sigstop)) :=
  ⟨fun _ _ _ => rtSigprocmask_errorsLeave_iff h .., fun _ _ _ => rtSigaction_errorsLeave_iff h ..⟩

theorem errorsLeave_iff_maskRegion :
    Valid maskRegion ∧
      ErrorsLeave (rtSigprocmask (M := GuestRegion) 2 0x1000 0) .new maskRegion :=
  ⟨trivial, ((errorsLeave_iff (show Valid maskRegion from trivial) .new).left 2 0x1000 0).mpr
    fun hand => hand.left.left rfl⟩

-- The old mask is reported, then the new one is found to be out of bounds.
theorem not_errorsLeave :
    ¬∀ (mem : GuestRegion) state,
      (∀ how set old, ErrorsLeave (rtSigprocmask how set old) state mem) ∧
      ∀ sig act old, ErrorsLeave (rtSigaction sig act old) state mem := by
  intro h
  have ⟨_, hsame⟩ := (h maskRegion .new).left 2 0x2000 0x1000 _ _ _ rfl
  exact absurd (hsame 0x1000) (by decide)

end SigSyscalls

end Prisma
