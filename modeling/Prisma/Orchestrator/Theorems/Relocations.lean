import Prisma.Orchestrator.Theorems.MapImage
import Prisma.Orchestrator.Theorems.RelocDirectory

namespace Prisma.PeLoader

open Extent

section Walk

variable {start dirEnd off n : Nat} {bytes bytes' : List U8} {pos next : Position} {f : Fixup}
  {fixups : List Fixup} {stop : Option PeError} {update update' : Fixup → List U8 → List U8}
  {delta : U64} {pageRva : U32} {raw : U16} {e : PeError}

-- What is read next lies in the directory.
def Position.Inside (start dirEnd : Nat) : Position → Prop
  | block off => start ≤ off
  | entry _ eo left next => start ≤ eo ∧ eo + 2 * left ≤ next ∧ next ≤ dirEnd

-- A block moves on by at least eight bytes, and an entry by one.
def Position.measure (dirEnd : Nat) : Position → Nat
  | block off => 2 * (dirEnd - off)
  | entry _ _ left next => 2 * (dirEnd - next) + left + 1

theorem action_goto (ha : action dirEnd bytes pos = .goto next) :
    next.measure dirEnd < pos.measure dirEnd ∧
      (pos.Inside start dirEnd → next.Inside start dirEnd) := by
  match pos with
  | .block off =>
    rw [action] at ha
    split at ha
    · dsimp only at ha
      split at ha
      · nomatch ha
      case isFalse hs =>
        cases ha
        simp only [Position.measure, Position.Inside]
        omega
    · nomatch ha
  | .entry _ _ 0 _ =>
    cases ha
    simp only [Position.measure, Position.Inside]
    omega
  | .entry _ _ (left + 1) _ =>
    rw [action] at ha
    split at ha
    · nomatch ha
    · cases ha
      simp only [Position.measure, Position.Inside]
      omega
    · nomatch ha

theorem within_of_entryFixup (h : entryFixup bytes.length pageRva raw = .ok (some f)) :
    f.Within bytes := by
  unfold entryFixup at h
  dsimp only at h
  repeat' split at h
  all_goals cases h
  all_goals assumption

theorem action_add (ha : action dirEnd bytes pos = .add f next) :
    next.measure dirEnd < pos.measure dirEnd ∧ f.Within bytes ∧
      (pos.Inside start dirEnd → next.Inside start dirEnd) := by
  match pos with
  | .block off =>
    rw [action] at ha
    split at ha
    · dsimp only at ha
      split at ha <;> nomatch ha
    · nomatch ha
  | .entry _ _ (left + 1) _ =>
    rw [action] at ha
    split at ha
    · nomatch ha
    · nomatch ha
    case _ hf =>
      cases ha
      simp only [Position.measure, Position.Inside]
      exact ⟨by omega, within_of_entryFixup hf, by omega⟩

-- Two images with the same directory are walked alike.
structure SameDir (start dirEnd : Nat) (bytes bytes' : List U8) : Prop where
  length : bytes'.length = bytes.length
  slice : ∀ off n, start ≤ off → off + n ≤ dirEnd → bytes'.slice off n = bytes.slice off n

theorem SameDir.action (h : SameDir start dirEnd bytes bytes') (hpos : pos.Inside start dirEnd) :
    action dirEnd bytes' pos = action dirEnd bytes pos := by
  match pos with
  | .block off =>
    have hoff : start ≤ off := hpos
    rw [PeLoader.action, PeLoader.action]
    split
    case isTrue hle => rw [h.slice off 4 hoff (by omega), h.slice (off + 4) 4 (by omega) (by omega)]
    case isFalse => rfl
  | .entry _ _ 0 _ => rfl
  | .entry _ eo (left + 1) _ =>
    have ⟨heo, hleft, hnext⟩ := hpos
    rw [PeLoader.action, PeLoader.action, h.slice eo 2 heo (by omega), h.length]

theorem SameDir.add (h : SameDir start dirEnd bytes bytes') (hf : f.Within bytes)
    (hout : dirEnd ≤ f.target ∨ f.target + f.size ≤ start) :
    SameDir start dirEnd bytes (f.add delta bytes') where
  length := Fixup.length_add.trans h.length
  slice off n hoff hle := by
    have hf : f.Within bytes' := by rwa [Fixup.Within, h.length]
    rw [Fixup.slice_add_apart hf (by omega), h.slice off n hoff hle]

theorem SameDir.addAll (hw : ∀ f ∈ fixups, f.Within bytes)
    (hout : ∀ f ∈ fixups, dirEnd ≤ f.target ∨ f.target + f.size ≤ start)
    (h : SameDir start dirEnd bytes bytes') :
    SameDir start dirEnd bytes (Fixup.addAll delta fixups bytes') := by
  induction fixups generalizing bytes' with
  | nil => exact h
  | cons f fixups hi =>
    have ⟨hf, hw⟩ := List.forall_mem_cons.mp hw
    have ⟨hfirst, hout⟩ := List.forall_mem_cons.mp hout
    exact hi hw hout (h.add hf hfirst)

theorem Visits.apply
    (h : Visits dirEnd (fun _ bytes => bytes) pos bytes fixups stop)
    (hpos : pos.Inside start dirEnd)
    (hout : ∀ f ∈ fixups, dirEnd ≤ f.target ∨ f.target + f.size ≤ start)
    (hsame : SameDir start dirEnd bytes bytes') :
    Visits dirEnd (Fixup.add delta) pos bytes' fixups stop := by
  induction h generalizing bytes' with
  | done h => exact .done ((hsame.action hpos).trans h)
  | fail h => exact .fail ((hsame.action hpos).trans h)
  | goto h _ hi =>
    exact .goto ((hsame.action hpos).trans h) (hi ((action_goto h).right hpos) hout hsame)
  | add h _ hi =>
    have ⟨_, hf, hnext⟩ := @action_add start _ _ _ _ _ h
    have ⟨hfirst, hout⟩ := List.forall_mem_cons.mp hout
    exact .add ((hsame.action hpos).trans h) (hi (hnext hpos) hout (hsame.add hf hfirst))

-- A walk along fixups that change nothing is a walk of the image as it is.
theorem Visits.of_unchanged (h : Visits dirEnd (fun _ bytes => bytes) pos bytes fixups stop)
    (hsame : ∀ f ∈ fixups, update f bytes = bytes) :
    Visits dirEnd update pos bytes fixups stop := by
  induction h with
  | done h => exact .done h
  | fail h => exact .fail h
  | goto h _ hi => exact .goto h (hi hsame)
  | add h _ hi =>
    have ⟨hfirst, hsame⟩ := List.forall_mem_cons.mp hsame
    exact .add h (hfirst.symm ▸ hi hsame)

theorem Visits.within (h : Visits dirEnd (fun _ bytes => bytes) pos bytes fixups stop) :
    ∀ f ∈ fixups, f.Within bytes := by
  induction h with
  | done | fail => nofun
  | goto _ _ hi => exact hi
  | add h _ hi => exact List.forall_mem_cons.mpr ⟨(@action_add 0 _ _ _ _ _ h).right.left, hi⟩

theorem exists_visits (dirEnd : Nat) (update : Fixup → List U8 → List U8) (pos : Position)
    (bytes : List U8) : ∃ fixups stop, Visits dirEnd update pos bytes fixups stop := by
  cases ha : action dirEnd bytes pos with
  | done => exact ⟨[], none, .done ha⟩
  | fail e => exact ⟨[], some e, .fail ha⟩
  | goto next =>
    have := (@action_goto 0 _ _ _ _ ha).left
    have ⟨fixups, stop, h⟩ := exists_visits dirEnd update next bytes
    exact ⟨fixups, stop, .goto ha h⟩
  | add f next =>
    have := (@action_add 0 _ _ _ _ _ ha).left
    have ⟨fixups, stop, h⟩ := exists_visits dirEnd update next (update f bytes)
    exact ⟨f :: fixups, stop, .add ha h⟩
termination_by pos.measure dirEnd

end Walk

section Run

variable {start dirEnd off n size applied : Nat} {bytes : List U8} {pos : Position} {f : Fixup}
  {fixups : List Fixup} {stop : Option PeError} {delta : U64} {targetRva pageRva : U32} {raw : U16}

theorem readNumber_eq (h : off + n ≤ bytes.length) :
    readNumber bytes off n = some (LittleEndian.decode (bytes.slice off n)) :=
  if_pos h

theorem addAt_eq {delta' : BitVec (8 * f.size)} (ht : f.target = targetRva.toNat)
    (hd : delta'.toNat = delta.toNat % 256 ^ f.size) :
    addAt f.size delta' targetRva bytes =
      if targetRva.toNat + f.size ≤ bytes.length then some (.ok 1, f.add delta bytes)
      else some (.error (.relocOutOfImage targetRva), bytes) := by
  unfold addAt
  dsimp only
  split
  case isFalse => rfl
  case isTrue hle =>
    rw [readNumber_eq hle]
    have hpow : 2 ^ (8 * f.size) = 256 ^ f.size := Nat.pow_mul 2 8 f.size
    have henc : LittleEndian.encode f.size
        (BitVec.ofNat (8 * f.size) (f.number bytes) + delta').toNat =
          LittleEndian.encode f.size (f.number bytes + delta.toNat) := by
      rw [BitVec.toNat_add, BitVec.toNat_ofNat, hd, hpow, ← Nat.add_mod, LittleEndian.encode_mod]
    rw [Fixup.add, ← henc, Fixup.number, ht]
    rfl

theorem applyEntry_eq :
    applyEntry delta pageRva raw bytes =
      match entryFixup bytes.length pageRva raw with
      | .error e => some (.error e, bytes)
      | .ok none => some (.ok 0, bytes)
      | .ok (some f) => some (.ok 1, f.add delta bytes) := by
  unfold applyEntry entryFixup
  dsimp only
  generalize pageRva + (raw &&& 0x0FFF).setWidth 32 = target
  have hnarrow : addAt 4 (delta.setWidth 32) target bytes =
      if target.toNat + 4 ≤ bytes.length then
        some (.ok 1, (⟨target.toNat, false⟩ : Fixup).add delta bytes)
      else some (.error (.relocOutOfImage target), bytes) :=
    @addAt_eq bytes ⟨target.toNat, false⟩ delta target (delta.setWidth 32) rfl
      (BitVec.toNat_setWidth ..)
  have hwide : addAt 8 delta target bytes =
      if target.toNat + 8 ≤ bytes.length then
        some (.ok 1, (⟨target.toNat, true⟩ : Fixup).add delta bytes)
      else some (.error (.relocOutOfImage target), bytes) :=
    @addAt_eq bytes ⟨target.toNat, true⟩ delta target delta rfl (Nat.mod_eq_of_lt delta.isLt).symm
  split
  case isTrue => rfl
  case isFalse =>
    split
    case isTrue =>
      rw [hnarrow]
      split <;> rfl
    case isFalse =>
      split
      case isTrue =>
        rw [hwide]
        split <;> rfl
      case isFalse => rfl

-- The rest of the walk, from a position on.
def resume (delta : U64) (dirEnd : Nat) :
    Position → Nat → List U8 → Option (Except PeError Nat × List U8)
  | .block off, applied, bytes => applyBlocks delta dirEnd off applied bytes
  | .entry pageRva eo left next, applied, bytes => do
    match ← applyEntries delta pageRva left eo applied bytes with
    | (.error e, bytes) => return (.error e, bytes)
    | (.ok applied, bytes) => applyBlocks delta dirEnd next applied bytes

theorem resume_eq (hpos : pos.Inside start dirEnd) (hlen : dirEnd ≤ bytes.length) :
    resume delta dirEnd pos applied bytes =
      match action dirEnd bytes pos with
      | .goto next => resume delta dirEnd next applied bytes
      | .add f next => resume delta dirEnd next (applied + 1) (f.add delta bytes)
      | .fail e => some (.error e, bytes)
      | .done => some (.ok applied, bytes) := by
  match pos with
  | .block off =>
    rw [resume, applyBlocks, action]
    split
    case isFalse => rfl
    case isTrue hle =>
      rw [readNumber_eq (by omega), readNumber_eq (by omega)]
      dsimp only [bind, Option.bind]
      split
      case isTrue => rfl
      case isFalse => rfl
  | .entry _ _ 0 _ => rfl
  | .entry pageRva eo (left + 1) next =>
    have ⟨_, _, _⟩ := hpos
    rw [resume, applyEntries, action, readNumber_eq (by omega)]
    dsimp only [bind, Option.bind]
    rw [applyEntry_eq]
    cases entryFixup bytes.length pageRva _ with
    | error e => rfl
    | ok f =>
      cases f with
      | none => rfl
      | some f => rfl

theorem Visits.resume (h : Visits dirEnd (Fixup.add delta) pos bytes fixups stop)
    (hpos : pos.Inside start dirEnd) (hlen : dirEnd ≤ bytes.length) :
    resume delta dirEnd pos applied bytes =
      some (stop.elim (.ok (applied + fixups.length)) .error, Fixup.addAll delta fixups bytes) := by
  induction h generalizing applied with
  | done h | fail h =>
    rw [resume_eq hpos hlen, h]
    rfl
  | goto h _ hi =>
    rw [resume_eq hpos hlen, h]
    exact hi ((action_goto h).right hpos) hlen
  | @add _ bytes f _ fixups stop h _ hi =>
    rw [resume_eq hpos hlen, h]
    dsimp only
    rw [hi ((action_add h).right.right hpos) (by rwa [Fixup.length_add]), List.length_cons,
      Nat.add_assoc, Nat.add_comm 1]
    rfl

end Run

variable {img : PeImage} {mapped mapped' : MappedImage} {newBase : U64} {fixups : List Fixup}
  {stop : Option PeError}

theorem applyRelocations_noop (h : img.relocDirRva = 0 ∨ newBase = img.imageBase) :
    applyRelocations img mapped newBase = some (.ok 0, mapped) :=
  if_pos h

theorem applyRelocations_outside (h : ¬(img.relocDirRva = 0 ∨ newBase = img.imageBase))
    (hlen : ¬dirEnd img ≤ mapped.bytes.length) :
    applyRelocations img mapped newBase =
      some (.error (.relocOutOfImage img.relocDirRva), mapped) := by
  rw [applyRelocations, if_neg h]
  exact if_neg hlen

-- The image after the walk.
def relocated (img : PeImage) (mapped : MappedImage) (newBase : U64) (fixups : List Fixup) :
    Option PeError → Option (Except PeError Nat × MappedImage)
  | some e => some (.error e,
      { mapped with bytes := Fixup.addAll (newBase - img.imageBase) fixups mapped.bytes })
  | none => (newBase.checkedAdd (img.entryPointRva.setWidth 64)).map fun entryPc =>
      (.ok fixups.length,
        ⟨newBase, entryPc, Fixup.addAll (newBase - img.imageBase) fixups mapped.bytes⟩)

theorem applyRelocations_eq (h : ¬(img.relocDirRva = 0 ∨ newBase = img.imageBase))
    (hlen : dirEnd img ≤ mapped.bytes.length)
    (hreach : Reaches img (newBase - img.imageBase) mapped.bytes fixups stop) :
    applyRelocations img mapped newBase = relocated img mapped newBase fixups stop := by
  have hrun : applyBlocks (newBase - img.imageBase) (dirEnd img) (dirStart img) 0 mapped.bytes = _ :=
    Visits.resume hreach (Nat.le_refl (dirStart img)) hlen
  rw [applyRelocations, if_neg h]
  dsimp only
  refine (if_pos hlen).trans ?_
  rw [Nat.zero_add] at hrun
  refine (congrArg (· >>= _) hrun).trans ?_
  cases stop with
  | some e => rfl
  | none =>
    dsimp only [bind, Option.bind, Option.elim, relocated]
    cases newBase.checkedAdd (img.entryPointRva.setWidth 64) <;> rfl

-- An image of one section: a number, and a directory with an entry for it and one entry more.
def relocSample : PeImage where
  machine := .i386
  sectionCount := 1
  timestamp := 0
  entryPointRva := 0
  imageBase := 0x400000
  sizeOfImage := 20
  sections := [⟨List.replicate 8 0, 20, 0, 20, 0, 0⟩]
  pe32Plus := false
  importDirRva := 0
  importDirSize := 0
  relocDirRva := 8
  relocDirSize := 12
  exportDirRva := 0
  exportDirSize := 0

def relocSampleFile (type : U8) : List U8 :=
  [0, 0, 0, 0, 0, 0, 0, 0, 0, 0, 0, 0, 12, 0, 0, 0, 0, 0x30, 0, type]

def relocSampleMapped : MappedImage :=
  ⟨0x400000, 0x400000, relocSampleFile 0⟩

theorem lists_relocSample : Lists relocSample relocSampleMapped.bytes [⟨0, false⟩] none :=
  .goto rfl (.add rfl (.goto rfl (.goto rfl (.done rfl))))

-- The second entry has an unknown type.
def malformedMapped : MappedImage :=
  ⟨0x400000, 0x400000, relocSampleFile 0x50⟩

section Listed

abbrev OutsideDirectory (img : PeImage) (fixups : List Fixup) : Prop :=
  ∀ f ∈ fixups, dirEnd img ≤ f.target ∨ f.target + f.size ≤ dirStart img

-- The distance to the new base is a multiple of what the numbers hold.
abbrev KeepsNumbers (img : PeImage) (newBase : U64) (fixups : List Fixup) : Prop :=
  ∀ f ∈ fixups, (newBase - img.imageBase).toNat % 256 ^ f.size = 0

-- The call returns, and the image is as before if it fails.
def UnchangedOnError (img : PeImage) (mapped : MappedImage) (newBase : U64) : Prop :=
  ∃ result mapped', applyRelocations img mapped newBase = some (result, mapped') ∧
    ∀ e, result = .error e → mapped' = mapped

theorem Lists.within (h : Lists img bytes fixups stop) : ∀ f ∈ fixups, f.Within bytes :=
  Visits.within h

theorem Lists.reaches (h : Lists img bytes fixups stop)
    (hout : OutsideDirectory img fixups) :
    Reaches img delta bytes fixups stop :=
  Visits.apply h (Nat.le_refl (dirStart img)) hout ⟨rfl, fun _ _ _ _ => rfl⟩

-- Fixups outside of the directory leave the walk as it is.
theorem Lists.reaches_addAll (h : Lists img bytes fixups stop) (hout : OutsideDirectory img fixups)
    (hb : bytes' = Fixup.addAll delta' fixups bytes) : Reaches img delta bytes' fixups stop := by
  have hsame : SameDir (dirStart img) (dirEnd img) bytes bytes := ⟨rfl, fun _ _ _ _ => rfl⟩
  exact Visits.apply h (Nat.le_refl (dirStart img)) hout (hb ▸ hsame.addAll h.within hout)

theorem Lists.reaches_of_mod (h : Lists img bytes fixups stop)
    (hmod : ∀ f ∈ fixups, delta.toNat % 256 ^ f.size = 0) : Reaches img delta bytes fixups stop :=
  Visits.of_unchanged h fun f hf => Fixup.add_eq_self (h.within f hf) (hmod f hf)

-- There is nothing to do, or the directory lies outside the image; or the new entry point of a well
-- formed image is an address, and the fixups before the malformed place do not change the image, or
-- there is no such place and they do not change the directory.
def Harmless (img : PeImage) (mapped : MappedImage) (newBase : U64) (fixups : List Fixup)
    (stop : Option PeError) : Prop :=
  img.relocDirRva = 0 ∨ newBase = img.imageBase ∨ mapped.bytes.length < dirEnd img ∨
  (stop = none → newBase.toNat + img.entryPointRva.toNat < 2 ^ 64) ∧
    (KeepsNumbers img newBase fixups ∨ stop = none ∧ OutsideDirectory img fixups)

theorem applyRelocations_of_harmless (hlists : Lists img mapped.bytes fixups stop)
    (h : Harmless img mapped newBase fixups stop) :
    UnchangedOnError img mapped newBase := by
  rw [Harmless, ← or_assoc] at h
  by_cases hnoop : img.relocDirRva = 0 ∨ newBase = img.imageBase
  case pos => exact ⟨_, _, applyRelocations_noop hnoop, nofun⟩
  by_cases hlen : dirEnd img ≤ mapped.bytes.length
  case neg => exact ⟨_, _, applyRelocations_outside hnoop hlen, fun _ _ => rfl⟩
  rw [or_iff_right hnoop, or_iff_right (Nat.not_lt.mpr hlen)] at h
  have ⟨hpc, hfix⟩ := h
  have hreach : Reaches img (newBase - img.imageBase) mapped.bytes fixups stop :=
    hfix.elim hlists.reaches_of_mod fun h => hlists.reaches h.right
  rw [UnchangedOnError, applyRelocations_eq hnoop hlen hreach]
  cases stop with
  | some e =>
    have hmod := hfix.resolve_right fun h => by cases h.left
    refine ⟨_, _, rfl, fun _ _ => ?_⟩
    rw [Fixup.addAll_eq_self hlists.within hmod]
  | none =>
    refine ⟨_, _, Option.map_eq_some_iff.mpr ⟨_, if_pos ?_, rfl⟩, nofun⟩
    rw [BitVec.toNat_setWidth_of_le (by decide)]
    exact hpc rfl

theorem harmless_of_applyRelocations (hlists : Lists img mapped.bytes fixups stop)
    (happart : fixups.Pairwise Apart)
    (hout : OutsideDirectory img fixups)
    (h : UnchangedOnError img mapped newBase) : Harmless img mapped newBase fixups stop := by
  have ⟨result, mapped', hrun, hkeep⟩ := h
  rw [Harmless, ← or_assoc]
  by_cases hnoop : img.relocDirRva = 0 ∨ newBase = img.imageBase
  case pos => exact .inl hnoop
  by_cases hlen : dirEnd img ≤ mapped.bytes.length
  case neg => exact .inr (.inl (Nat.not_le.mp hlen))
  refine .inr (.inr ?_)
  rw [applyRelocations_eq hnoop hlen (hlists.reaches hout)] at hrun
  cases stop with
  | some e =>
    cases hrun
    have hbytes := congrArg MappedImage.bytes (hkeep e rfl)
    exact ⟨nofun, .inl ((Fixup.addAll_eq_self_iff hlists.within happart).mp hbytes)⟩
  | none =>
    have ⟨entryPc, hadd, _⟩ := Option.map_eq_some_iff.mp hrun
    rw [BitVec.checkedAdd_eq_some, BitVec.toNat_setWidth_of_le (by decide)] at hadd
    exact ⟨fun _ => hadd ▸ entryPc.isLt, .inr ⟨rfl, hout⟩⟩

-- Fixups are written before the rest of the directory is read, and the new entry point is computed
-- at the very end. For disjoint fixups outside the directory this is all that can go wrong.
theorem applyRelocations_unchanged_iff (img : PeImage) (mapped : MappedImage) (newBase : U64) :
    ∃ fixups stop, Lists img mapped.bytes fixups stop ∧
      (Harmless img mapped newBase fixups stop → UnchangedOnError img mapped newBase) ∧
      (fixups.Pairwise Apart →
        OutsideDirectory img fixups →
        (UnchangedOnError img mapped newBase ↔ Harmless img mapped newBase fixups stop)) := by
  have ⟨fixups, stop, hlists⟩ : ∃ fixups stop, Lists img mapped.bytes fixups stop :=
    exists_visits (dirEnd img) _ (.block (dirStart img)) mapped.bytes
  have hkeep := @applyRelocations_of_harmless img mapped newBase fixups stop hlists
  exact ⟨fixups, stop, hlists, hkeep, fun happart hout =>
    ⟨harmless_of_applyRelocations hlists happart hout, hkeep⟩⟩

theorem not_applyRelocations_unchanged :
    ¬∀ (img : PeImage) (mapped : MappedImage) (newBase : U64),
      UnchangedOnError img mapped newBase := by
  intro h
  have ⟨result, mapped', hrun, hkeep⟩ := h relocSample malformedMapped 0x500000
  have heval : applyRelocations relocSample malformedMapped 0x500000 =
      some (.error (.relocUnsupportedType 5), ⟨0x400000, 0x400000,
        [0, 0, 0x10, 0, 0, 0, 0, 0, 0, 0, 0, 0, 12, 0, 0, 0, 0, 0x30, 0, 0x50]⟩) := by
    decide +kernel
  cases hrun.symm.trans heval
  exact absurd (hkeep _ rfl) (by decide)

-- A run that succeeds adds the distance to the numbers that the directory lists, counts them and
-- leaves all other bytes alone.
theorem applyRelocations_rebases (hb : newBase ≠ img.imageBase)
    (hnone : img.relocDirRva = 0 → fixups = [])
    (hlists : img.relocDirRva ≠ 0 → Lists img mapped.bytes fixups stop)
    (happart : fixups.Pairwise Apart)
    (hout : ∀ f ∈ fixups, dirEnd img ≤ f.target ∨ f.target + f.size ≤ dirStart img)
    (hrun : applyRelocations img mapped newBase = some (.ok n, mapped')) :
    n = fixups.length ∧
    (∀ f ∈ fixups, f.number mapped'.bytes =
      (f.number mapped.bytes + (newBase - img.imageBase).toNat) % 256 ^ f.size) ∧
    ∀ i, (∀ f ∈ fixups, i < f.target ∨ f.target + f.size ≤ i) →
      mapped'.bytes[i]? = mapped.bytes[i]? := by
  by_cases hdir : img.relocDirRva = 0
  case pos =>
    cases (applyRelocations_noop (.inl hdir)).symm.trans hrun
    cases hnone hdir
    exact ⟨rfl, nofun, fun _ _ => rfl⟩
  have hlists := hlists hdir
  by_cases hlen : dirEnd img ≤ mapped.bytes.length
  case neg =>
    cases (applyRelocations_outside (not_or.mpr ⟨hdir, hb⟩) hlen).symm.trans hrun
  rw [applyRelocations_eq (not_or.mpr ⟨hdir, hb⟩) hlen (hlists.reaches hout)] at hrun
  cases stop with
  | some e => cases hrun
  | none =>
    have ⟨_, _, he⟩ := Option.map_eq_some_iff.mp hrun
    cases he
    exact ⟨rfl, fun _ => Fixup.number_addAll hlists.within happart,
      fun _ => Fixup.getElem?_addAll_outside hlists.within⟩

-- The number at the start of the image is moved from one base to the other.
theorem applyRelocations_rebases_sample :
    ∃ n mapped', applyRelocations relocSample relocSampleMapped 0x500000 = some (.ok n, mapped') ∧
      n = 1 ∧ Fixup.number ⟨0, false⟩ mapped'.bytes = 0x100000 := by
  have hreach : Reaches relocSample (0x500000 - relocSample.imageBase) _ _ _ :=
    lists_relocSample.reaches (by decide)
  have hrun := applyRelocations_eq (by decide) (by decide) hreach
  have ⟨hn, hf, _⟩ := applyRelocations_rebases (by decide) (by decide)
    (fun _ => lists_relocSample) (by simp) (by decide) hrun
  exact ⟨_, _, hrun, hn, hf _ (by simp)⟩

end Listed

section Twice

variable {file : List U8} {b₁ b₂ : U64}

-- The image after two relocations.
def applyTwice (img : PeImage) (mapped : MappedImage) (b₁ b₂ : U64) : Option MappedImage := do
  let (_, mapped) ← applyRelocations img mapped b₁
  let (_, mapped) ← applyRelocations img mapped b₂
  return mapped

def applyOnce (img : PeImage) (mapped : MappedImage) (b : U64) : Option MappedImage := do
  let (_, mapped) ← applyRelocations img mapped b
  return mapped

theorem applyTwice_eq :
    applyTwice img mapped b₁ b₂ = (applyOnce img mapped b₁).bind (applyOnce img · b₂) := by
  unfold applyTwice applyOnce
  cases applyRelocations img mapped b₁ <;> rfl

theorem applyOnce_noop (h : b₁ = img.imageBase) : applyOnce img mapped b₁ = some mapped := by
  rw [applyOnce, applyRelocations_noop (.inr h)]
  rfl

theorem applyOnce_outside (hlen : ¬dirEnd img ≤ mapped.bytes.length) :
    applyOnce img mapped b₁ = some mapped := by
  by_cases h : img.relocDirRva = 0 ∨ b₁ = img.imageBase
  case pos =>
    rw [applyOnce, applyRelocations_noop h]
    rfl
  case neg =>
    rw [applyOnce, applyRelocations_outside h hlen]
    rfl

theorem applyOnce_eq (hdir : img.relocDirRva ≠ 0) (hb : b₁ ≠ img.imageBase)
    (hlen : dirEnd img ≤ mapped.bytes.length)
    (hreach : Reaches img (b₁ - img.imageBase) mapped.bytes fixups stop) :
    applyOnce img mapped b₁ = (relocated img mapped b₁ fixups stop).map Prod.snd := by
  rw [applyOnce, applyRelocations_eq (not_or.mpr ⟨hdir, hb⟩) hlen hreach]
  cases relocated img mapped b₁ fixups stop <;> rfl

theorem Fixup.mod_eq_iff {f : Fixup} {d d' : U64} :
    (d + d').toNat % 256 ^ f.size = d'.toNat % 256 ^ f.size ↔ d.toNat % 256 ^ f.size = 0 := by
  rw [Fixup.toNat_add_mod]
  constructor
  · intro h
    have h : d.toNat + d'.toNat ≡ 0 + d'.toNat [MOD 256 ^ f.size] := by rwa [Nat.zero_add]
    exact Nat.ModEq.add_right_cancel' _ h
  · intro h
    rw [← Nat.mod_add_mod, h, Nat.zero_add]

theorem entryPc_eq_none {b : U64} : b.checkedAdd (img.entryPointRva.setWidth 64) = none ↔
    2 ^ 64 ≤ b.toNat + img.entryPointRva.toNat := by
  rw [BitVec.checkedAdd_eq_none, BitVec.toNat_setWidth_of_le (by decide)]

theorem applyOnce_returns_iff (hpc : img.imageBase.toNat + img.entryPointRva.toNat < 2 ^ 64)
    (hdir : img.relocDirRva ≠ 0) (hlen : dirEnd img ≤ mapped.bytes.length)
    (hreach : Reaches img (b₁ - img.imageBase) mapped.bytes fixups stop) :
    (∃ final, applyOnce img mapped b₁ = some final) ↔
      (stop = none → b₁.toNat + img.entryPointRva.toNat < 2 ^ 64) := by
  by_cases hb : b₁ = img.imageBase
  case pos =>
    rw [applyOnce_noop hb, hb]
    exact iff_of_true ⟨_, rfl⟩ fun _ => hpc
  rw [applyOnce_eq hdir hb hlen hreach]
  cases stop with
  | some e => exact iff_of_true ⟨_, rfl⟩ nofun
  | none =>
    rw [relocated, Option.map_map, ← Option.isSome_iff_exists, Option.isSome_map,
      Option.isSome_iff_ne_none, Ne, entryPc_eq_none, Nat.not_le]
    exact ⟨fun h _ => h, fun h => h rfl⟩

-- The second relocation starts from the preferred base again, not from the first one. Two runs that
-- panic are the same here.
theorem applyTwice_eq_iff (hmap : Fallible.Returns (mapImage img file) mapped)
    (hdir : img.relocDirRva ≠ 0) (hlists : Lists img mapped.bytes fixups stop)
    (happart : fixups.Pairwise Apart)
    (hout : OutsideDirectory img fixups) :
    applyTwice img mapped b₁ b₂ = applyOnce img mapped b₂ ↔
      b₁ = img.imageBase ∨ mapped.bytes.length < dirEnd img ∨
      match stop with
      | some _ => KeepsNumbers img b₁ fixups
      | none => b₂ ≠ img.imageBase ∧ (2 ^ 64 ≤ b₂.toNat + img.entryPointRva.toNat ∨
        b₁.toNat + img.entryPointRva.toNat < 2 ^ 64 ∧
        KeepsNumbers img b₁ fixups) := by
  have hw := hlists.within
  rw [applyTwice_eq]
  by_cases hb₁ : b₁ = img.imageBase
  case pos =>
    rw [applyOnce_noop hb₁]
    exact iff_of_true rfl (.inl hb₁)
  rw [or_iff_right hb₁]
  by_cases hlen : dirEnd img ≤ mapped.bytes.length
  case neg =>
    rw [applyOnce_outside hlen, applyOnce_outside hlen]
    exact iff_of_true (applyOnce_outside hlen) (.inl (Nat.not_le.mp hlen))
  rw [or_iff_right (Nat.not_lt.mpr hlen),
    applyOnce_eq hdir hb₁ hlen (hlists.reaches hout)]
  have ⟨_, hbase, _⟩ := returns_mapImage hmap
  by_cases hb₂ : b₂ = img.imageBase
  case pos =>
    simp only [applyOnce_noop hb₂, Option.bind_fun_some]
    cases stop with
    | some e =>
      rw [KeepsNumbers, ← Fixup.addAll_eq_self_iff hw happart, relocated, Option.map_some,
        Option.some_inj]
      exact ⟨congrArg MappedImage.bytes, fun h => by rw [h]⟩
    | none =>
      refine iff_of_false (fun h => ?_) fun h => h.left hb₂
      rw [relocated, Option.map_map] at h
      have ⟨_, _, he⟩ := Option.map_eq_some_iff.mp h
      exact hb₁ ((congrArg MappedImage.base he).trans hbase)
  have hbytes : Fixup.addAll (b₂ - img.imageBase) fixups
      (Fixup.addAll (b₁ - img.imageBase) fixups mapped.bytes) =
        Fixup.addAll (b₂ - img.imageBase) fixups mapped.bytes ↔
      KeepsNumbers img b₁ fixups := by
    rw [Fixup.addAll_addAll hw happart, Fixup.addAll_eq_iff hw happart]
    exact forall₂_congr fun _ _ => Fixup.mod_eq_iff
  have htwice (m : MappedImage)
      (hm : m.bytes = Fixup.addAll (b₁ - img.imageBase) fixups mapped.bytes) :=
    applyOnce_eq hdir hb₂ (by rwa [hm, Fixup.length_addAll]) (hlists.reaches_addAll hout hm)
  rw [applyOnce_eq hdir hb₂ hlen (hlists.reaches hout), ← hbytes]
  cases stop with
  | some e =>
    rw [relocated, Option.map_some, Option.bind_some, htwice _ rfl, relocated, relocated,
      Option.map_some, Option.map_some, Option.some_inj]
    exact ⟨congrArg MappedImage.bytes, fun h => by rw [h]⟩
  | none =>
    rw [and_iff_right hb₂, ← entryPc_eq_none, ← Nat.not_le, ← entryPc_eq_none, relocated, relocated,
      Option.map_map, Option.map_map]
    cases hadd₁ : b₁.checkedAdd (img.entryPointRva.setWidth 64) with
    | none => simp [eq_comm]
    | some entryPc =>
      rw [Option.map_some, Option.bind_some, htwice _ rfl, relocated, Option.map_map]
      cases hadd₂ : b₂.checkedAdd (img.entryPointRva.setWidth 64) with
      | none => simp
      | some entryPc => simp

-- If both ways return, they leave the same image under the following condition only.
theorem applyTwice_eq_applyOnce_iff (hmap : Fallible.Returns (mapImage img file) mapped)
    (hdir : img.relocDirRva ≠ 0) (hlists : Lists img mapped.bytes fixups stop)
    (happart : fixups.Pairwise Apart)
    (hout : OutsideDirectory img fixups) :
    (∃ final, applyTwice img mapped b₁ b₂ = some final ∧ applyOnce img mapped b₂ = some final) ↔
      mapped.bytes.length < dirEnd img ∨
      match stop with
      | some _ => KeepsNumbers img b₁ fixups
      | none => b₂.toNat + img.entryPointRva.toNat < 2 ^ 64 ∧ (b₁ = img.imageBase ∨
        b₂ ≠ img.imageBase ∧ b₁.toNat + img.entryPointRva.toNat < 2 ^ 64 ∧
        KeepsNumbers img b₁ fixups) := by
  have hsplit : (∃ final, applyTwice img mapped b₁ b₂ = some final ∧
      applyOnce img mapped b₂ = some final) ↔
        applyTwice img mapped b₁ b₂ = applyOnce img mapped b₂ ∧
          ∃ final, applyOnce img mapped b₂ = some final := by
    constructor
    · rintro ⟨final, htwice, honce⟩
      exact ⟨htwice.trans honce.symm, final, honce⟩
    · rintro ⟨he, final, honce⟩
      exact ⟨final, he.trans honce, honce⟩
  rw [hsplit, applyTwice_eq_iff hmap hdir hlists happart hout]
  by_cases hlen : dirEnd img ≤ mapped.bytes.length
  case neg =>
    have hlt := Nat.not_le.mp hlen
    exact iff_of_true ⟨.inr (.inl hlt), _, applyOnce_outside hlen⟩ (.inl hlt)
  have ⟨_, _, hpc⟩ := returns_mapImage hmap
  have hpc : img.imageBase.toNat + img.entryPointRva.toNat < 2 ^ 64 := hpc ▸ mapped.entryPc.isLt
  have hzero : b₁ = img.imageBase →
      KeepsNumbers img b₁ fixups := by
    rintro rfl f _
    rw [BitVec.sub_self]
    exact Nat.zero_mod _
  rw [applyOnce_returns_iff hpc hdir hlen (hlists.reaches hout)]
  cases stop with
  | some e =>
    rw [or_iff_right (Nat.not_lt.mpr hlen), or_iff_right_of_imp hzero]
    exact and_iff_left nofun
  | none => grind

theorem mapImage_relocSample :
    Fallible.Returns (mapImage relocSample (relocSampleFile 0)) relocSampleMapped :=
  rfl

-- The low half of the base is all that the image has a copy of.
theorem applyTwice_eq_applyOnce_high :
    ∃ final, applyTwice relocSample relocSampleMapped 0x100400000 0x600000 = some final ∧
      applyOnce relocSample relocSampleMapped 0x600000 = some final :=
  (applyTwice_eq_applyOnce_iff mapImage_relocSample (by decide) lists_relocSample (by simp)
    (by decide)).mpr (.inr ⟨by decide, .inr ⟨by decide, by decide, by decide⟩⟩)

theorem not_applyTwice_eq_applyOnce :
    ¬∀ (img : PeImage) (file : List U8) (mapped : MappedImage) (fixups : List Fixup)
      (stop : Option PeError) (b₁ b₂ : U64), Fallible.Returns (mapImage img file) mapped →
      img.relocDirRva ≠ 0 → Lists img mapped.bytes fixups stop → fixups.Pairwise Apart →
      OutsideDirectory img fixups →
      ∃ final, applyTwice img mapped b₁ b₂ = some final ∧
        applyOnce img mapped b₂ = some final := by
  intro h
  have hne : applyTwice relocSample relocSampleMapped 0x500000 0x600000 ≠
      applyOnce relocSample relocSampleMapped 0x600000 := by
    decide +kernel
  have ⟨_, htwice, honce⟩ := h _ _ _ _ _ 0x500000 0x600000 mapImage_relocSample (by decide)
    lists_relocSample (by simp) (by decide)
  exact hne (htwice.trans honce.symm)

end Twice

end Prisma.PeLoader
