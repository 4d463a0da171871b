import Prisma.Core.Theorems.JitPool
import Prisma.Core.Translator

-- The tail branches that are patched lead to blocks that are current, over all calls.

namespace Prisma.Core

open AList Option

namespace JitCode

-- The tail branch leads to the instruction behind it.
def Unpatched (entry : U64) (code : JitCode) : Prop :=
  ∀ offset, code.branchOffset = some offset →
    code.destination entry = some (entry + BitVec.ofNat 64 (offset + 4))

structure Placed (entry : U64) (code : JitCode) : Prop where
  aligned : entry.toNat % 4 = 0
  fits : entry.toNat + code.sizeBytes ≤ 2 ^ 64
  nonempty : 0 < code.sizeBytes
  branch : ∀ offset, code.branchOffset = some offset → offset % 4 = 0 ∧ offset + 8 ≤ code.sizeBytes

-- The code is the same up to where the tail branch leads to.
structure Retargeted (entry target : U64) (code code' : JitCode) : Prop where
  guestPc : code'.guestPc = code.guestPc
  size : code'.sizeBytes = code.sizeBytes
  branchOffset : code'.branchOffset = code.branchOffset
  destination : code'.destination entry = some target

variable {entry target : U64} {code code' : JitCode}

theorem Retargeted.placed (h : Retargeted entry target code code') (hp : code.Placed entry) :
    code'.Placed entry where
  aligned := hp.aligned
  fits := h.size ▸ hp.fits
  nonempty := h.size ▸ hp.nonempty
  branch := by
    rw [h.size, h.branchOffset]
    exact hp.branch

end JitCode

-- The code of the record.
structure Record.Owns (record : Record) (guestPc : U64) (code : JitCode) : Prop where
  guestPc : code.guestPc = guestPc
  jitBlock : record.jitBlock = ⟨record.entry, code.sizeBytes⟩
  branchOffset : code.branchOffset =
    if record.directPatch.available then some record.directPatch.branchOffset else none
  fallback : record.directPatch.available →
    record.directPatch.fallbackOffset = record.directPatch.branchOffset + 4

namespace Translator

variable {tr tr' : Translator} {pc source target entry : U64} {record : Record}

def code? (tr : Translator) (entry : U64) : Option JitCode :=
  tr.pool.blocks.lookup entry

def record? (tr : Translator) (pc : U64) : Option Record :=
  tr.byAddr.lookup pc

def sources (tr : Translator) (target : U64) : List U64 :=
  (tr.directPatchIncoming.lookup target).getD []

-- The blocks lie apart from each other, and every record has one of them.
structure Sound (tr : Translator) : Prop where
  placed : ∀ entry code, tr.code? entry = some code → code.Placed entry
  apart : ∀ entry code entry' code', tr.code? entry = some code → tr.code? entry' = some code' →
    entry ≠ entry' → entry.toNat + code.sizeBytes ≤ entry'.toNat ∨
      entry'.toNat + code'.sizeBytes ≤ entry.toNat
  owned : ∀ pc record, tr.record? pc = some record →
    ∃ code, tr.code? record.entry = some code ∧ record.Owns pc code

-- The exit of the record is patched to a current block whose own exit is not patched.
structure Links (tr : Translator) (record : Record) : Prop where
  available : record.directPatch.available
  leads : ∃ target code, tr.record? record.directPatch.targetGuestPc = some target ∧
    target.directPatchApplied = false ∧ tr.code? record.entry = some code ∧
    code.destination record.entry = some target.entry

structure Linked (tr : Translator) : Prop extends tr.Sound where
  links : ∀ pc record, tr.record? pc = some record → record.directPatchApplied → tr.Links record
  incoming : ∀ target source, source ∈ tr.sources target ↔ ∃ record,
    tr.record? source = some record ∧ record.directPatchApplied ∧
      record.directPatch.targetGuestPc = target
  -- Blocks that no record refers to any more are not patched either.
  reverted : ∀ entry code, tr.code? entry = some code → code.Unpatched entry ∨
    ∃ pc record, tr.record? pc = some record ∧ record.entry = entry ∧ record.directPatchApplied

theorem Sound.entry_inj (h : tr.Sound) (hr : tr.record? pc = some record)
    (hr' : tr.record? pc' = some record') (he : record.entry = record'.entry) : pc = pc' := by
  have ⟨code, hc, ho⟩ := h.owned pc record hr
  have ⟨code', hc', ho'⟩ := h.owned pc' record' hr'
  rw [he] at hc
  cases hc.symm.trans hc'
  exact ho.guestPc.symm.trans ho'.guestPc

section Sources

variable {target' source' : U64}

@[simp]
theorem record?_addIncoming : (tr.addIncoming target source).record? = tr.record? :=
  rfl

theorem mem_sources_addIncoming :
    source' ∈ (tr.addIncoming target source).sources target' ↔
      source' ∈ tr.sources target' ∨ target' = target ∧ source' = source := by
  unfold sources addIncoming
  dsimp only
  rw [lookup_insert_eq_ite]
  by_cases ht : target' = target
  case pos =>
    subst ht
    rw [if_pos rfl, getD_some]
    split
    case isTrue h => exact ⟨.inl, fun h' => h'.elim id fun he => he.right ▸ h⟩
    case isFalse => simp
  case neg => simp [ht]

@[simp]
theorem record?_removeIncoming : (tr.removeIncoming target source).record? = tr.record? := by
  unfold removeIncoming
  split <;> rfl

@[simp]
theorem code?_removeIncoming : (tr.removeIncoming target source).code? = tr.code? := by
  unfold removeIncoming
  split <;> rfl

theorem mem_sources_removeIncoming :
    source' ∈ (tr.removeIncoming target source).sources target' ↔
      source' ∈ tr.sources target' ∧ ¬(target' = target ∧ source' = source) := by
  unfold sources removeIncoming
  split
  case h_1 hn =>
    refine ⟨fun h => ⟨h, ?_⟩, fun h => h.left⟩
    rintro ⟨rfl, rfl⟩
    rw [hn] at h
    cases h
  case h_2 sources hs =>
    dsimp only
    by_cases ht : target' = target
    case neg =>
      have hsame : AList.lookup target' (if (sources.filter (· ≠ source)).isEmpty then
          tr.directPatchIncoming.erase target
          else tr.directPatchIncoming.insert target (sources.filter (· ≠ source))) =
            tr.directPatchIncoming.lookup target' := by
        split
        · exact lookup_erase_ne ht
        · exact lookup_insert_ne ht
      rw [hsame]
      simp [ht]
    case pos =>
      subst ht
      rw [hs]
      split
      case isTrue he =>
        have he : ∀ a ∈ sources, a = source := by simpa using he
        simp only [lookup_erase, getD_none, List.not_mem_nil, getD_some, true_and,
          false_iff, not_and, not_not]
        exact he source'
      case isFalse => simp

end Sources

section Relink

-- The tail branch of one block is rewritten, and the flag of its record is set.
structure Relinked (source : U64) (record : Record) (applied : Bool) (dest : U64)
    (tr tr' : Translator) : Prop where
  before : tr.record? source = some record
  record? : ∀ pc, tr'.record? pc =
    if pc = source then some { record with directPatchApplied := applied } else tr.record? pc
  code? : ∃ code code', tr.code? record.entry = some code ∧
    code.Retargeted record.entry dest code' ∧
    ∀ entry, tr'.code? entry = if entry = record.entry then some code' else tr.code? entry

variable {applied : Bool} {dest : U64} {pool : JitSlabPool}

theorem Sound.relinked (h : tr.Sound) (applied : Bool) (hr : tr.record? source = some record)
    (ha : record.directPatch.available)
    (hw : JitSlabPool.Rewrites record.jitBlock record.directPatch.branchOffset dest tr.pool pool) :
    Relinked source record applied dest tr (tr.setApplied source record pool applied) := by
  have ⟨code, hc, ho⟩ := h.owned source record hr
  have ⟨code₁, word, branch, hc₁, hpool, hd, hdest⟩ := hw.rewritten
  rw [ho.jitBlock] at hc₁ hpool hdest
  cases hc₁.symm.trans hc
  have hoff := ho.branchOffset
  rw [if_pos ha] at hoff
  have ⟨hmod, hin⟩ := (h.placed _ _ hc).branch _ hoff
  refine ⟨hr, fun pc => lookup_insert_eq_ite _, code,
    { code with words := code.words.set (record.directPatch.branchOffset / 4) word }, hc, ?_,
    fun entry => ?_⟩
  case refine_2 =>
    rw [Translator.code?, setApplied, hpool]
    exact lookup_insert_eq_ite _
  refine ⟨rfl, ?_, rfl, ?_⟩
  · simp [JitCode.sizeBytes]
  · unfold JitCode.sizeBytes at hin
    simp only [JitCode.destination, hoff, bind_eq_bind, bind_some]
    rw [List.getElem?_set_self (by omega), bind_some, hd, bind_some, hdest]
    rfl

section Rewritten

variable (h : Relinked source record applied dest tr tr')

include h

theorem Relinked.owned (hs : tr.Sound) (hr : tr'.record? pc = some record') :
    ∃ code, tr'.code? record'.entry = some code ∧ record'.Owns pc code := by
  have ⟨code, code', hc, ht, hcode⟩ := h.code?
  rw [h.record?] at hr
  split at hr
  case isTrue hp =>
    subst hp
    cases hr
    have ⟨code₁, hc₁, ho⟩ := hs.owned pc record h.before
    cases hc₁.symm.trans hc
    refine ⟨code', by rw [hcode, if_pos rfl], ht.guestPc.trans ho.guestPc, ?_, ?_, ho.fallback⟩
    · rw [ht.size]
      exact ho.jitBlock
    · rw [ht.branchOffset]
      exact ho.branchOffset
  case isFalse hp =>
    have ⟨code₁, hc₁, ho⟩ := hs.owned pc record' hr
    have hne : record'.entry ≠ record.entry := fun he => hp (hs.entry_inj hr h.before he)
    exact ⟨code₁, by rw [hcode, if_neg hne, hc₁], ho⟩

theorem Relinked.code_cases
    (hc : tr'.code? entry = some code') : ∃ code, tr.code? entry = some code ∧
      (code' = code ∧ entry ≠ record.entry ∨
        entry = record.entry ∧ code.Retargeted record.entry dest code') := by
  have ⟨code₁, code₂, hc₁, ht, hcode⟩ := h.code?
  rw [hcode] at hc
  split at hc
  case isTrue he =>
    cases hc
    exact ⟨code₁, he ▸ hc₁, .inr ⟨he, ht⟩⟩
  case isFalse he => exact ⟨code', hc, .inl ⟨rfl, he⟩⟩

theorem Relinked.sound (hs : tr.Sound) :
    tr'.Sound where
  owned _ _ hr := h.owned hs hr
  placed entry code' hc := by
    have ⟨code, hc, ht⟩ := h.code_cases hc
    rcases ht with ⟨rfl, _⟩ | ⟨rfl, ht⟩
    · exact hs.placed entry _ hc
    · exact ht.placed (hs.placed _ _ hc)
  apart entry code₁ entry' code₂ hc₁ hc₂ hne := by
    have hsize : ∀ entry code', tr'.code? entry = some code' →
        ∃ code, tr.code? entry = some code ∧ code'.sizeBytes = code.sizeBytes := by
      intro entry code' hc
      have ⟨code, hc, ht⟩ := h.code_cases hc
      rcases ht with ⟨rfl, _⟩ | ⟨_, ht⟩
      · exact ⟨_, hc, rfl⟩
      · exact ⟨code, hc, ht.size⟩
    have ⟨code₁', hc₁', hs₁⟩ := hsize entry code₁ hc₁
    have ⟨code₂', hc₂', hs₂⟩ := hsize entry' code₂ hc₂
    rw [hs₁, hs₂]
    exact hs.apart entry code₁' entry' code₂' hc₁' hc₂' hne

theorem Relinked.links (hs : tr.Sound) (hr : tr.record? pc = some record') (hp : pc ≠ source)
    (ht : record'.directPatch.targetGuestPc ≠ source) (hl : tr.Links record') :
    tr'.Links record' := by
  have ⟨target, code, htarget, hna, hc, hd⟩ := hl.leads
  have ⟨_, _, _, _, hcode⟩ := h.code?
  have hne : record'.entry ≠ record.entry := fun he => hp (hs.entry_inj hr h.before he)
  refine ⟨hl.available, target, code, ?_, hna, ?_, hd⟩
  · rw [h.record?, if_neg ht, htarget]
  · rw [hcode, if_neg hne, hc]

end Rewritten

theorem Linked.relinked_true {target : Record} (h : tr.Linked)
    (hl : Relinked source record true target.entry tr tr') (ha : record.directPatch.available)
    (hn : record.directPatchApplied = false) (hs : tr.sources source = [])
    (ht : tr.record? record.directPatch.targetGuestPc = some target)
    (htn : target.directPatchApplied = false) (hne : record.directPatch.targetGuestPc ≠ source)
    (hi : ∀ t s, s ∈ tr'.sources t ↔
      s ∈ tr.sources t ∨ t = record.directPatch.targetGuestPc ∧ s = source) : tr'.Linked := by
  have ⟨code, code', hc, hret, hcode⟩ := hl.code?
  refine { hl.sound h.toSound with links := ?links, incoming := ?incoming, reverted := ?reverted }
  case links =>
    intro pc record' hr happ
    rw [hl.record?] at hr
    split at hr
    case isTrue =>
      cases hr
      refine ⟨ha, target, code', ?_, htn, ?_, hret.destination⟩
      · rw [hl.record?, if_neg hne, ht]
      · rw [hcode, if_pos rfl]
    case isFalse hp =>
      refine hl.links h.toSound hr hp (fun hsource => ?_) (h.links pc record' hr happ)
      have hm := (h.incoming source pc).mpr ⟨record', hr, happ, hsource⟩
      rw [hs] at hm
      cases hm
  case incoming =>
    intro t s
    rw [hi, h.incoming, hl.record?]
    constructor
    case mp =>
      rintro (⟨record', hr, happ, htarget⟩ | ⟨rfl, rfl⟩)
      · have hp : s ≠ source := by
          rintro rfl
          cases hl.before.symm.trans hr
          rw [hn] at happ
          cases happ
        exact ⟨record', by rw [if_neg hp, hr], happ, htarget⟩
      · exact ⟨_, if_pos rfl, rfl, rfl⟩
    case mpr =>
      rintro ⟨record', hr, happ, htarget⟩
      split at hr
      case isTrue hp =>
        cases hr
        exact .inr ⟨htarget.symm, hp⟩
      case isFalse => exact .inl ⟨record', hr, happ, htarget⟩
  case reverted =>
    intro entry code₁ hc₁
    have ⟨code₂, hc₂, hcases⟩ := hl.code_cases hc₁
    rcases hcases with ⟨rfl, hentry⟩ | ⟨rfl, _⟩
    · refine (h.reverted entry _ hc₂).imp_right fun ⟨pc, record', hr, he, happ⟩ => ?_
      refine ⟨pc, record', ?_, he, happ⟩
      rw [hl.record?, if_neg ?_, hr]
      rintro rfl
      cases hl.before.symm.trans hr
      exact hentry he.symm
    · have hr := hl.record? source
      rw [if_pos rfl] at hr
      exact .inr ⟨source, _, hr, rfl, rfl⟩

theorem Linked.relinked_false (h : tr.Linked)
    (hl : Relinked source record false
      (record.entry + BitVec.ofNat 64 record.directPatch.fallbackOffset) tr tr')
    (ha : record.directPatch.available) (hn : record.directPatchApplied)
    (hi : ∀ t s, s ∈ tr'.sources t ↔
      s ∈ tr.sources t ∧ ¬(t = record.directPatch.targetGuestPc ∧ s = source)) : tr'.Linked := by
  have ⟨code, code', hc, hret, hcode⟩ := hl.code?
  have ⟨code₀, hc₀, ho⟩ := h.owned source record hl.before
  cases hc₀.symm.trans hc
  refine { hl.sound h.toSound with links := ?links, incoming := ?incoming, reverted := ?reverted }
  case links =>
    intro pc record' hr happ
    rw [hl.record?] at hr
    split at hr
    case isTrue =>
      cases hr
      cases happ
    case isFalse hp =>
      have hlink := h.links pc record' hr happ
      refine hl.links h.toSound hr hp (fun hsource => ?_) hlink
      have ⟨target, _, ht, htn, _⟩ := hlink.leads
      rw [hsource] at ht
      cases hl.before.symm.trans ht
      rw [hn] at htn
      cases htn
  case incoming =>
    intro t s
    rw [hi, h.incoming, hl.record?]
    constructor
    case mp =>
      rintro ⟨⟨record', hr, happ, htarget⟩, hnot⟩
      have hp : s ≠ source := by
        rintro rfl
        cases hl.before.symm.trans hr
        exact hnot ⟨htarget.symm, rfl⟩
      exact ⟨record', by rw [if_neg hp, hr], happ, htarget⟩
    case mpr =>
      rintro ⟨record', hr, happ, htarget⟩
      split at hr
      case isTrue =>
        cases hr
        cases happ
      case isFalse hp => exact ⟨⟨record', hr, happ, htarget⟩, fun hnot => hp hnot.right⟩
  case reverted =>
    intro entry code₁ hc₁
    have ⟨code₂, hc₂, hcases⟩ := hl.code_cases hc₁
    rcases hcases with ⟨rfl, hentry⟩ | ⟨rfl, hret⟩
    · refine (h.reverted entry _ hc₂).imp_right fun ⟨pc, record', hr, he, happ⟩ => ?_
      refine ⟨pc, record', ?_, he, happ⟩
      rw [hl.record?, if_neg ?_, hr]
      rintro rfl
      cases hl.before.symm.trans hr
      exact hentry he.symm
    · refine .inl fun offset hoff => ?_
      cases hc₀.symm.trans hc₂
      rw [hret.branchOffset, ho.branchOffset, if_pos ha] at hoff
      cases hoff
      rw [hret.destination, ho.fallback ha]

end Relink

section Patch

theorem Linked.addIncoming (h : tr.Linked) (hm : source ∈ tr.sources target) :
    (tr.addIncoming target source).Linked := by
  refine ⟨⟨h.placed, h.apart, h.owned⟩, fun pc record hr happ => ?_, fun t s => ?_, h.reverted⟩
  · have hl := h.links pc record hr happ
    exact ⟨hl.available, hl.leads⟩
  · rw [mem_sources_addIncoming, record?_addIncoming, h.incoming, or_iff_left_iff_imp]
    rintro ⟨rfl, rfl⟩
    exact (h.incoming _ _).mp hm

theorem sources_eq_nil (hi : tr.hasIncomingDirectPatch target = false) :
    tr.sources target = [] := by
  simpa [hasIncomingDirectPatch, sources] using hi

-- What the call does: nothing, it notes a patch again, or it patches the exit.
inductive Patches (source target : U64) (tr : Translator) : DirectPatchResult × Translator → Prop
  | kept {result} : Patches source target tr (result, tr)
  | again {old : Record} (hr : tr.record? source = some old) (happ : old.directPatchApplied)
    (hmatch : old.directPatch.targetGuestPc = target) :
    Patches source target tr (.ok, tr.addIncoming target source)
  | patched {old new : Record} {pool : JitSlabPool} (hself : source ≠ target)
    (hr : tr.record? source = some old) (ht : tr.record? target = some new) (ha : old.directPatch.available)
    (hmatch : old.directPatch.targetGuestPc = target) (hn : old.directPatchApplied = false)
    (hi : tr.sources source = []) (htn : new.directPatchApplied = false)
    (hw : JitSlabPool.Rewrites old.jitBlock old.directPatch.branchOffset new.entry tr.pool
      pool) :
    Patches source target tr
      (.ok, (tr.setApplied source old pool true).addIncoming target source)

theorem patchDirectExit_patches (source target : U64) (tr : Translator) :
    Patches source target tr (tr.patchDirectExit source target) := by
  unfold Translator.patchDirectExit
  split
  · exact .kept
  case isFalse hself =>
  split
  · exact .kept
  case h_2 record hr =>
  split
  · exact .kept
  case h_2 record' ht =>
  split
  · exact .kept
  case isFalse ha =>
  split
  · exact .kept
  split
  · exact .kept
  case isFalse hmatch =>
  split
  case isTrue happ => exact .again hr happ (not_not.mp hmatch)
  case isFalse hn =>
  split
  · exact .kept
  case isFalse hchain =>
  have ⟨hi, htn⟩ := Bool.or_eq_false_iff.mp (eq_false_of_ne_true hchain)
  rcases tr.pool.patchAarch64Branch_cases record.jitBlock record.directPatch.branchOffset
    record'.entry with ⟨result, hne, hp⟩ | ⟨pool, hp, hw⟩
  · rw [hp]
    split
    case h_1 heq => exact absurd (congrArg Prod.fst heq) hne
    case h_2 => exact .kept
  · rw [hp]
    exact .patched hself hr ht (by simpa using ha) (not_not.mp hmatch) (eq_false_of_ne_true hn)
      (sources_eq_nil hi) htn hw

theorem Linked.patchDirectExit (h : tr.Linked) : (tr.patchDirectExit source target).2.Linked := by
  generalize he : tr.patchDirectExit source target = res
  cases he ▸ patchDirectExit_patches source target tr with
  | kept => exact h
  | again hr happ hmatch => exact h.addIncoming ((h.incoming _ _).mpr ⟨_, hr, happ, hmatch⟩)
  | patched hself hr ht ha hmatch hn hi htn hw =>
    have hl := h.toSound.relinked true hr ha hw
    refine h.relinked_true ⟨hl.before, hl.record?, hl.code?⟩ ha hn hi (hmatch ▸ ht) htn
      (hmatch ▸ hself.symm) fun t s => ?_
    rw [mem_sources_addIncoming, hmatch]
    rfl

theorem unpatchDirectExit_cases (h : tr.Linked) (source : U64) :
    ((∀ record, tr.record? source = some record → record.directPatchApplied = false) ∧
      (tr.unpatchDirectExit source).2 = tr) ∨
    ∃ record tr', tr.record? source = some record ∧ record.directPatchApplied ∧
      Relinked source record false
        (record.entry + BitVec.ofNat 64 record.directPatch.fallbackOffset) tr tr' ∧
      tr'.sources = tr.sources ∧
      tr.unpatchDirectExit source =
        (.ok, tr'.removeIncoming record.directPatch.targetGuestPc source) := by
  cases hr : tr.record? source with
  | none =>
    refine .inl ⟨nofun, ?_⟩
    unfold unpatchDirectExit
    rw [show tr.byAddr.lookup source = none from hr]
  | some record =>
    have hlookup : tr.byAddr.lookup source = some record := hr
    cases happ : record.directPatchApplied with
    | false =>
      refine .inl ⟨fun _ he => by cases he; exact happ, ?_⟩
      unfold unpatchDirectExit
      rw [hlookup]
      dsimp only
      split
      · rfl
      · rw [happ]
        rfl
    | true =>
      have ha := (h.links source record hr happ).available
      have ⟨code, hc, ho⟩ := h.owned source record hr
      have hp := h.placed _ _ hc
      have hoff := ho.branchOffset
      rw [if_pos ha] at hoff
      have ⟨hmod, hin⟩ := hp.branch _ hoff
      have hb : tr.pool.blocks.lookup record.jitBlock.entry = some code := by
        rw [ho.jitBlock]
        exact hc
      have he : record.jitBlock.entry = record.entry := congrArg JitBlock.entry ho.jitBlock
      have ⟨pool, hpatch⟩ := JitSlabPool.patchAarch64Branch_next hb
        (congrArg JitBlock.sizeBytes ho.jitBlock) (by rw [he]; exact hp.aligned) hmod hin
        (by rw [he]; exact hp.fits)
      rw [he, ← ho.fallback ha] at hpatch
      rcases tr.pool.patchAarch64Branch_cases record.jitBlock record.directPatch.branchOffset
        (record.entry + BitVec.ofNat 64 record.directPatch.fallbackOffset) with
        ⟨result, hne, hp⟩ | ⟨pool', hp, hw⟩
      · exact absurd (congrArg Prod.fst (hp.symm.trans hpatch)) hne
      refine .inr ⟨record, tr.setApplied source record pool' false, rfl, happ,
        h.toSound.relinked false hr ha hw, rfl, ?_⟩
      unfold unpatchDirectExit
      rw [hlookup]
      dsimp only
      rw [ha, happ, hp]
      rfl

-- The record without its patch.
def unapplied (record : Record) : Record :=
  { record with directPatchApplied := false }

theorem unapplied_eq (h : record.directPatchApplied = false) : unapplied record = record := by
  unfold unapplied
  rw [← h]

theorem Linked.unpatchDirectExit (h : tr.Linked) : (tr.unpatchDirectExit source).2.Linked := by
  rcases unpatchDirectExit_cases h source with ⟨_, he⟩ | ⟨record, tr', hr, happ, hl, hs, he⟩
  · rwa [he]
  rw [he]
  refine h.relinked_false ⟨hl.before, ?_, ?_⟩ (h.links source record hr happ).available happ
    fun t s => ?_
  · rw [record?_removeIncoming]
    exact hl.record?
  · rw [code?_removeIncoming]
    exact hl.code?
  · rw [mem_sources_removeIncoming, hs]

theorem record?_unpatchDirectExit (h : tr.Linked) :
    (tr.unpatchDirectExit source).2.record? pc =
      (tr.record? pc).map fun record => if pc = source then unapplied record else record := by
  rcases unpatchDirectExit_cases h source with ⟨hn, he⟩ | ⟨record, tr', hr, happ, hl, _, he⟩
  · rw [he]
    cases hr : tr.record? pc with
    | none => rfl
    | some record =>
      rw [map_some]
      split
      case isTrue hp => rw [unapplied_eq (hn record (hp ▸ hr))]
      case isFalse => rfl
  · rw [he, record?_removeIncoming, hl.record?]
    split
    case isTrue hp =>
      subst hp
      rw [hr]
      rfl
    case isFalse => exact map_id'.symm

theorem Linked.unpatchAll (h : tr.Linked) (sources : List U64) :
    let tr' := sources.foldl (fun tr source => (tr.unpatchDirectExit source).2) tr
    tr'.Linked ∧ ∀ pc, tr'.record? pc =
      (tr.record? pc).map fun record => if pc ∈ sources then unapplied record else record := by
  induction sources generalizing tr with
  | nil => exact ⟨h, fun pc => by simp⟩
  | cons source sources hi =>
    have h₁ : (tr.unpatchDirectExit source).2.Linked := h.unpatchDirectExit
    have ⟨hl, hr⟩ := hi h₁
    refine ⟨hl, fun pc => ?_⟩
    rw [List.foldl_cons, hr, record?_unpatchDirectExit h, map_map]
    congr 1
    funext record
    by_cases hp : pc = source
    all_goals by_cases hm : pc ∈ sources
    all_goals simp [hp, hm, unapplied]

end Patch

section Drop

theorem Linked.erase (h : tr.Linked)
    (hn : ∀ record, tr.record? pc = some record → record.directPatchApplied = false)
    (hi : ∀ source, source ∉ tr.sources pc) :
    Linked { tr with byAddr := tr.byAddr.erase pc } := by
  have hr : ∀ pc', Translator.record? { tr with byAddr := tr.byAddr.erase pc } pc' =
      if pc' = pc then none else tr.record? pc' := fun _ => lookup_erase_eq_ite
  have hsome : ∀ {pc' record}, Translator.record? { tr with byAddr := tr.byAddr.erase pc } pc' =
      some record → pc' ≠ pc ∧ tr.record? pc' = some record := by
    intro pc' record h
    rw [hr] at h
    split at h
    · cases h
    · exact ⟨‹_›, h⟩
  have happlied : ∀ {pc' record}, tr.record? pc' = some record → record.directPatchApplied →
      Translator.record? { tr with byAddr := tr.byAddr.erase pc } pc' = some record := by
    intro pc' record he happ
    rw [hr, if_neg, he]
    rintro rfl
    rw [hn record he] at happ
    cases happ
  refine ⟨⟨h.placed, h.apart, fun pc' record he => h.owned pc' record (hsome he).right⟩, ?_, ?_, ?_⟩
  · intro pc' record he happ
    have he := (hsome he).right
    have hl := h.links pc' record he happ
    have ⟨target, code, ht, htn, hc, hd⟩ := hl.leads
    refine ⟨hl.available, target, code, ?_, htn, hc, hd⟩
    rw [hr, if_neg, ht]
    intro hp
    exact hi pc' ((h.incoming pc pc').mpr ⟨record, he, happ, hp⟩)
  · intro t s
    refine (h.incoming t s).trans ⟨?_, ?_⟩
    · rintro ⟨record, he, happ, ht⟩
      exact ⟨record, happlied he happ, happ, ht⟩
    · rintro ⟨record, he, happ, ht⟩
      exact ⟨record, (hsome he).right, happ, ht⟩
  · intro entry code hc
    refine (h.reverted entry code hc).imp_right ?_
    rintro ⟨pc', record, he, hentry, happ⟩
    exact ⟨pc', record, happlied he happ, hentry, happ⟩

theorem Linked.drop (h : tr.Linked) :
    (tr.drop pc).Linked ∧ (tr.drop pc).record? pc = none := by
  refine ⟨?_, lookup_erase ..⟩
  have h₁ : (tr.unpatchDirectExit pc).2.Linked := h.unpatchDirectExit
  have ⟨h₂, hr₂⟩ := h₁.unpatchAll ((tr.unpatchDirectExit pc).2.sources pc)
  refine h₂.erase (fun record hr => ?_) fun source hm => ?_
  · rw [hr₂, record?_unpatchDirectExit h, map_map] at hr
    have ⟨record₀, _, he⟩ := map_eq_some_iff.mp hr
    rw [← he]
    simp only [Function.comp_apply, if_true]
    split <;> rfl
  · -- The sources that were patched to the block have been reverted.
    have ⟨record, hr, happ, ht⟩ := (h₂.incoming pc source).mp hm
    rw [hr₂] at hr
    have ⟨record₀, hr₀, he⟩ := map_eq_some_iff.mp hr
    split at he
    case isTrue =>
      rw [← he] at happ
      cases happ
    case isFalse hnot =>
      subst he
      exact hnot ((h₁.incoming pc source).mpr ⟨record₀, hr₀, happ, ht⟩)

end Drop

section Install

variable {compile : Compiler} {guestBytes : List U8} {place : Option U64} {code : JitCode}
  {site : DirectPatchSite} {lowered : LoweredBlock}

-- The emitted code, and the patch site that its record gets.
structure Emitted (guestAddr : U64) (code : JitCode) (site : DirectPatchSite) : Prop where
  guestPc : code.guestPc = guestAddr
  nonempty : 0 < code.sizeBytes
  branchOffset : code.branchOffset = if site.available then some site.branchOffset else none
  fallback : site.available → site.fallbackOffset = site.branchOffset + 4
  branch : ∀ offset, code.branchOffset = some offset → offset % 4 = 0 ∧ offset + 8 ≤ code.sizeBytes
  unpatched : ∀ entry, code.Unpatched entry

theorem emitted_emit : Emitted pc (emit pc lowered).1 (emit pc lowered).2 := by
  unfold emit
  split
  case isFalse => exact ⟨rfl, by simp [JitCode.sizeBytes], rfl, nofun, nofun, fun _ => nofun⟩
  case isTrue =>
    refine ⟨rfl, by simp [JitCode.sizeBytes], rfl, fun _ => rfl, fun offset ho => ?_,
      fun entry offset ho => ?_⟩
    all_goals cases ho
    · simp only [JitCode.sizeBytes, List.length_append, List.length_cons, List.length_nil]
      omega
    · have hd : A64.Branch.decode 0x14000001 = some (.b 1) := by decide
      simp only [JitCode.destination, bind_eq_bind, bind_some]
      rw [Nat.mul_div_cancel_left _ (by decide), List.getElem?_append_right (Nat.le_refl _),
        Nat.sub_self, List.getElem?_cons_zero, bind_some, hd, BitVec.ofNat_add,
        ← BitVec.add_assoc]
      rfl

theorem Linked.installed {record : Record} (h : tr.Linked) (he : Emitted pc code site)
    (hn : tr.record? pc = none) (hfree : tr.pool.Free entry code.sizeBytes)
    (hre : record.entry = entry) (hrj : record.jitBlock = ⟨entry, code.sizeBytes⟩)
    (hrs : record.directPatch = site) (hra : record.directPatchApplied = false) :
    Linked { tr with
      pool := ⟨tr.pool.blocks.insert entry code⟩
      byAddr := tr.byAddr.insert pc record } := by
  generalize htr' : ({ tr with
      pool := ⟨tr.pool.blocks.insert entry code⟩
      byAddr := tr.byAddr.insert pc record } : Translator) = tr'
  have hr : ∀ pc', tr'.record? pc' = if pc' = pc then some record else tr.record? pc' :=
    htr' ▸ fun _ => lookup_insert_eq_ite _
  have hc : ∀ entry', tr'.code? entry' = if entry' = entry then some code else tr.code? entry' :=
    htr' ▸ fun _ => lookup_insert_eq_ite _
  have hs : tr'.sources = tr.sources := htr' ▸ rfl
  have ⟨_, hmod, hfits, hapart⟩ := hfree
  have hapart : ∀ entry' code', tr.code? entry' = some code' →
      entry.toNat + code.sizeBytes ≤ entry'.toNat ∨ entry'.toNat + code'.sizeBytes ≤ entry.toNat :=
    fun entry' code' hc' => hapart ⟨entry', code'⟩ (lookup_eq_some.mp hc')
  have hfresh : ∀ entry' code', tr.code? entry' = some code' → entry' ≠ entry := by
    rintro entry' code' hc' rfl
    have := he.nonempty
    have := (h.placed _ _ hc').nonempty
    have := hapart _ _ hc'
    omega
  -- Applied records are old ones.
  have hold : ∀ {pc' record'}, tr'.record? pc' = some record' → record'.directPatchApplied →
      tr.record? pc' = some record' := by
    intro pc' record' hr' happ
    rw [hr] at hr'
    split at hr'
    · cases hr'
      rw [hra] at happ
      cases happ
    · exact hr'
  have hkept : ∀ {pc' record'}, tr.record? pc' = some record' → tr'.record? pc' = some record' := by
    intro pc' record' hr'
    rw [hr, if_neg, hr']
    rintro rfl
    cases hn.symm.trans hr'
  refine ⟨⟨?placed, ?apart, ?owned⟩, ?links, ?incoming, ?reverted⟩
  case placed =>
    intro entry' code' hc'
    rw [hc] at hc'
    split at hc'
    case isTrue heq =>
      cases hc'
      subst heq
      exact ⟨by omega, hfits, he.nonempty, he.branch⟩
    case isFalse => exact h.placed entry' code' hc'
  case apart =>
    intro entry₁ code₁ entry₂ code₂ hc₁ hc₂ hne
    rw [hc] at hc₁ hc₂
    split at hc₁
    case isTrue h₁ =>
      cases hc₁
      subst h₁
      rw [if_neg hne.symm] at hc₂
      exact hapart entry₂ code₂ hc₂
    case isFalse h₁ =>
      split at hc₂
      case isTrue h₂ =>
        cases hc₂
        subst h₂
        exact (hapart entry₁ code₁ hc₁).symm
      case isFalse => exact h.apart entry₁ code₁ entry₂ code₂ hc₁ hc₂ hne
  case owned =>
    intro pc' record' hr'
    rw [hr] at hr'
    split at hr'
    case isTrue hp =>
      cases hr'
      subst hp hre hrs
      exact ⟨code, by rw [hc, if_pos rfl], he.guestPc, hrj, he.branchOffset, he.fallback⟩
    case isFalse =>
      have ⟨code', hc', ho⟩ := h.owned pc' record' hr'
      exact ⟨code', by rw [hc, if_neg (hfresh _ _ hc'), hc'], ho⟩
  case links =>
    intro pc' record' hr' happ
    have hl := h.links pc' record' (hold hr' happ) happ
    have ⟨target, code', ht, htn, hc', hd⟩ := hl.leads
    exact ⟨hl.available, target, code', hkept ht, htn, by rw [hc, if_neg (hfresh _ _ hc'), hc'], hd⟩
  case incoming =>
    intro t s
    rw [hs, h.incoming]
    constructor
    · rintro ⟨record', hr', happ, ht⟩
      exact ⟨record', hkept hr', happ, ht⟩
    · rintro ⟨record', hr', happ, ht⟩
      exact ⟨record', hold hr' happ, happ, ht⟩
  case reverted =>
    intro entry' code' hc'
    rw [hc] at hc'
    split at hc'
    case isTrue =>
      cases hc'
      exact .inl (he.unpatched _)
    case isFalse =>
      refine (h.reverted entry' code' hc').imp_right ?_
      rintro ⟨pc', record', hr', hentry, happ⟩
      exact ⟨pc', record', hkept hr', hentry, happ⟩

theorem Linked.install (h : tr.Linked) (hn : tr.record? pc = none) :
    (tr.install compile pc guestBytes place).2.Linked := by
  unfold Translator.install
  split
  · exact h
  case h_2 lowered _ =>
  dsimp only
  split
  · exact h
  case h_2 block pool hacq =>
  unfold JitSlabPool.acquire at hacq
  split at hacq
  · cases hacq
  case h_2 entry =>
  have ⟨hfree, hb⟩ := ite_none_right_eq_some.mp hacq
  cases hb
  exact h.installed emitted_emit hn hfree rfl rfl rfl rfl

theorem Linked.translate (h : tr.Linked) :
    (tr.translate compile pc guestBytes place).2.Linked := by
  unfold Translator.translate
  split
  · exact h
  split
  case h_1 hn => exact h.install hn
  case h_2 record hr =>
    split
    · exact h
    · have ⟨hd, hn⟩ : (tr.drop pc).Linked ∧ (tr.drop pc).record? pc = none := h.drop
      exact hd.install hn

end Install

section Current

-- The block that the current record of the address describes.
def current? (tr : Translator) (pc : U64) : Option TranslatedBlock :=
  (tr.record? pc).map (·.translatedBlock true)

variable {block : TranslatedBlock}

theorem current?_patchDirectExit : (tr.patchDirectExit source target).2.current? = tr.current? := by
  generalize he : tr.patchDirectExit source target = res
  cases he ▸ patchDirectExit_patches source target tr with
  | kept | again => rfl
  | @patched old _ pool _ hr =>
    funext pc
    have hpc : ((tr.setApplied source old pool true).addIncoming target source).record? pc =
        if pc = source then some { old with directPatchApplied := true } else tr.record? pc :=
      lookup_insert_eq_ite _
    rw [current?, current?, hpc]
    split
    case isTrue hp =>
      rw [hp, hr]
      rfl
    case isFalse => rfl

theorem current?_unpatchDirectExit (h : tr.Linked) :
    (tr.unpatchDirectExit source).2.current? = tr.current? := by
  funext pc
  rw [current?, current?, record?_unpatchDirectExit h, map_map]
  congr 1
  funext record
  rw [Function.comp_apply]
  split <;> rfl

theorem current?_lookupCached (h : tr.lookupCached pc bytes = some block) :
    tr.current? pc = some { block with fromCache := true } := by
  unfold lookupCached at h
  split at h
  · cases h
  split at h
  · cases h
  case h_2 record hr =>
    have ⟨_, hb⟩ := ite_none_right_eq_some.mp h
    rw [current?, show tr.record? pc = some record from hr, map_some, ← Option.some.inj hb]
    rfl

theorem current?_install (h : tr.install compile pc bytes place = (.ok block, tr')) :
    tr'.current? pc = some { block with fromCache := true } := by
  unfold Translator.install at h
  split at h
  · cases h
  dsimp only at h
  split at h
  · cases h
  cases h
  rw [current?, Translator.record?, lookup_insert]
  rfl

theorem current?_translate (h : tr.translate compile pc bytes place = (.ok block, tr')) :
    tr'.current? pc = some { block with fromCache := true } := by
  unfold Translator.translate at h
  split at h
  · cases h
  split at h
  · exact current?_install h
  case h_2 record hr =>
    split at h
    · cases h
      rw [current?, show tr.record? pc = some record from hr]
      rfl
    · exact current?_install h

end Current

section Runs

theorem Linked.stepPatch (h : tr.Linked) : (tr.stepPatch call).Linked := by
  cases call with
  | patch => exact h.patchDirectExit
  | unpatch => exact h.unpatchDirectExit

theorem Linked.step (h : tr.Linked) : (tr.step compile call).Linked := by
  cases call with
  | translate => exact h.translate
  | patching => exact h.stepPatch

theorem linked_new : new.Linked where
  placed := nofun
  apart := nofun
  owned := nofun
  links := nofun
  incoming _ _ := ⟨nofun, nofun⟩
  reverted := nofun

theorem Linked.steps {calls : List Call} (h : tr.Linked) :
    (calls.foldl (Translator.step compile) tr).Linked := by
  induction calls generalizing tr with
  | nil => exact h
  | cons call calls hi => exact hi h.step

-- After any calls a patched exit leads to the entry of the current record of its target, which is
-- not patched itself, and no other block is patched.
theorem patched_exits_current (compile : Compiler) (calls : List Call) :
    let tr := calls.foldl (Translator.step compile) new
    (∀ source record, tr.record? source = some record → record.directPatchApplied →
      ∃ target code, tr.record? record.directPatch.targetGuestPc = some target ∧
        target.directPatchApplied = false ∧ tr.code? record.entry = some code ∧
        code.destination record.entry = some target.entry) ∧
    ∀ entry code, tr.code? entry = some code → ¬code.Unpatched entry →
      ∃ source record, tr.record? source = some record ∧ record.entry = entry ∧
        record.directPatchApplied := by
  have h : (calls.foldl (Translator.step compile) new).Linked := linked_new.steps
  exact ⟨fun source record hr happ => (h.links source record hr happ).leads,
    fun entry code hc hu => (h.reverted entry code hc).resolve_left hu⟩

end Runs

end Translator

end Prisma.Core
