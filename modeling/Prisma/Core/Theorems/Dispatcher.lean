import Prisma.Core.Dispatcher
import Prisma.Core.Theorems.Translator

-- How many and which guest blocks a run executes, whatever exits are patched.

namespace Prisma.Core

open Option

namespace Translator

variable {tr : Translator} {pc target : U64} {record record' : Record} {code : JitCode}

theorem Linked.unpatched (h : tr.Linked) (hr : tr.record? pc = some record)
    (hn : record.directPatchApplied = false) (hc : tr.code? record.entry = some code) :
    code.Unpatched record.entry := by
  refine (h.reverted _ _ hc).resolve_right ?_
  rintro ⟨pc', record', hr', he, happ⟩
  cases h.entry_inj hr' hr he
  cases hr.symm.trans hr'
  rw [hn] at happ
  cases happ

theorem Linked.leaves (h : tr.Linked) (hr : tr.record? pc = some record)
    (hr' : tr.record? target = some record') (hne : pc ≠ target)
    (hc : tr.code? record.entry = some code) (ho : code.branchOffset = some offset) :
    record'.entry ≠ record.entry + BitVec.ofNat 64 (offset + 4) := by
  have ⟨code', hc', _⟩ := h.owned target record' hr'
  have hentry : record.entry ≠ record'.entry := fun he => hne (h.entry_inj hr hr' he)
  have hp := h.placed _ _ hc
  have hp' := h.placed _ _ hc'
  have hfits := hp.fits
  have hpos := hp'.nonempty
  have hin := (hp.branch offset ho).right
  have hapart := h.apart _ _ _ _ hc hc' hentry
  intro he
  have hnat : record'.entry.toNat = record.entry.toNat + (offset + 4) := by
    rw [he, BitVec.toNat_add, BitVec.toNat_ofNat]
    omega
  omega

end Translator

namespace Dispatcher

open Translator

variable {σ : Type} {guest : Guest σ} {tr : Translator} {pc : U64} {record record' : Record}
  {machine : σ}

section Execute

variable {rounds : Nat}

theorem runCode_unpatched (h : tr.Linked) (hr : tr.record? pc = some record)
    (hn : record.directPatchApplied = false) :
    runCode guest tr.pool (rounds + 1) record.entry machine =
      some ([pc], guest.body record.entry machine) := by
  have ⟨code, hc, ho⟩ := h.owned pc record hr
  have hu := h.unpatched hr hn hc
  have hlookup : tr.pool.blocks.lookup record.entry = some code := hc
  rw [runCode, hlookup, bind_eq_bind, bind_some]
  dsimp only
  split
  case h_1 => rw [ho.guestPc]; rfl
  case h_2 offset hoffset =>
    rw [hu offset hoffset, bind_eq_bind, bind_some, if_pos rfl, ho.guestPc]
    rfl

theorem runCode_patched (h : tr.Linked) (hr : tr.record? pc = some record)
    (happ : record.directPatchApplied) : ∃ machine' nextPc,
      runCode guest tr.pool (rounds + 2) record.entry machine =
        some ([pc, record.directPatch.targetGuestPc], machine', nextPc) := by
  have ⟨code, hc, ho⟩ := h.owned pc record hr
  have hl := h.links pc record hr happ
  have ⟨target, code', ht, htn, hc', hd⟩ := hl.leads
  cases hc.symm.trans hc'
  have hoff := ho.branchOffset
  rw [if_pos hl.available] at hoff
  have hne : pc ≠ record.directPatch.targetGuestPc := by
    intro he
    rw [← he] at ht
    cases hr.symm.trans ht
    rw [htn] at happ
    cases happ
  have hlookup : tr.pool.blocks.lookup record.entry = some code := hc
  rw [runCode, hlookup, bind_eq_bind, bind_some]
  dsimp only
  rw [hoff]
  dsimp only
  rw [hd, bind_eq_bind, bind_some, if_neg (h.leaves hr ht hne hc hoff),
    runCode_unpatched h ht htn, ho.guestPc]
  exact ⟨_, _, rfl⟩

end Execute

section Invariant

variable {compile : Compiler} {around : Surroundings} {haltPcs : List U64} {maxSteps : Nat}
  {loop loop' : Loop σ} {block : TranslatedBlock}

-- The blocks that have been executed are as many as steps, and none of them is at a halt pc.
structure Bounded (haltPcs : List U64) (maxSteps : Nat) (loop : Loop σ) : Prop where
  linked : loop.translator.Linked
  counted : loop.executed.length = loop.step
  within : loop.step ≤ maxSteps
  spared : ∀ pc ∈ loop.executed, pc ∉ haltPcs

-- The block is about to be executed.
structure Ready (haltPcs : List U64) (maxSteps : Nat) (block : TranslatedBlock) (loop : Loop σ) :
    Prop extends Bounded haltPcs maxSteps loop where
  room : loop.step < maxSteps
  running : loop.pc ∉ haltPcs
  current : loop.translator.current? loop.pc = some { block with fromCache := true }

def Next.Ok (haltPcs : List U64) (maxSteps : Nat) : Next σ → Prop
  | .done _ loop | .outer loop => Bounded haltPcs maxSteps loop
  | .inner block loop => Ready haltPcs maxSteps block loop

-- The rounds that are needed at most.
def Next.rounds (maxSteps : Nat) : Next σ → Nat
  | .done .. => 0
  | .outer loop => 2 * (maxSteps - loop.step) + 2
  | .inner _ loop => 2 * (maxSteps - loop.step) + 1

theorem Bounded.translator (h : Bounded haltPcs maxSteps loop) {tr : Translator}
    {stats : DispatchStats} (ht : tr.Linked) :
    Bounded haltPcs maxSteps { loop with translator := tr, stats := stats } :=
  ⟨ht, h.counted, h.within, h.spared⟩

theorem linked_of_translate (h : tr.Linked) (ht : tr.translate compile pc bytes place = (r, tr')) :
    tr'.Linked := by
  have hl : (tr.translate compile pc bytes place).2.Linked := h.translate
  rwa [ht] at hl

theorem outer_ok (h : Bounded haltPcs maxSteps loop) :
    (outer compile guest around haltPcs maxSteps loop).Ok haltPcs maxSteps ∧
      (outer compile guest around haltPcs maxSteps loop).rounds maxSteps <
        2 * (maxSteps - loop.step) + 2 := by
  unfold outer
  split
  case isFalse => split <;> exact ⟨h, Nat.succ_pos _⟩
  case isTrue hroom =>
    have hl : ((around.drain loop.iteration).foldl (Translator.step compile) loop.translator).Linked :=
      h.linked.steps
    dsimp only
    split
    · exact ⟨h.translator hl, Nat.succ_pos _⟩
    case isFalse hrun =>
      split
      · exact ⟨h.translator hl, Nat.succ_pos _⟩
      split
      case h_1 ht => exact ⟨h.translator (linked_of_translate hl ht), Nat.succ_pos _⟩
      case h_2 block tr ht =>
        refine ⟨⟨h.translator (linked_of_translate hl ht), hroom, hrun, current?_translate ht⟩, ?_⟩
        exact Nat.lt_succ_self _

section Settle

-- What is left of the patch of the block that is executed next.
structure Settled (haltPcs : List U64) (maxSteps : Nat) (block : TranslatedBlock) (loop : Loop σ)
    (patched : Option (U64 × TranslatedBlock)) (loop' : Loop σ) : Prop where
  ready : Ready haltPcs maxSteps block loop'
  step : loop'.step = loop.step
  record : ∃ record, loop'.translator.record? loop'.pc = some record ∧
    match patched with
    | none => record.directPatchApplied = false
    | some (targetPc, _) => record.directPatchApplied ∧
      record.directPatch.targetGuestPc = targetPc ∧ loop'.step + 2 ≤ maxSteps ∧ targetPc ∉ haltPcs

theorem Ready.recorded (h : Ready haltPcs maxSteps block loop) :
    ∃ record, loop.translator.record? loop.pc = some record ∧ block.codeEntry = record.entry ∧
      block.directPatch = record.directPatch := by
  have ⟨record, hr, hb⟩ := map_eq_some_iff.mp h.current
  exact ⟨record, hr, (congrArg TranslatedBlock.codeEntry hb).symm,
    (congrArg TranslatedBlock.directPatch hb).symm⟩

theorem activeDirectPatchTarget_eq_none_iff (h : tr.Linked) (hr : tr.record? pc = some record) :
    tr.activeDirectPatchTarget pc = none ↔ record.directPatchApplied = false := by
  rw [activeDirectPatchTarget, show tr.byAddr.lookup pc = some record from hr, bind_eq_bind,
    bind_some]
  cases happ : record.directPatchApplied with
  | false => exact iff_of_true rfl rfl
  | true =>
    have ⟨target, _, ht, _⟩ := (h.links pc record hr happ).leads
    rw [if_pos rfl, show tr.byAddr.lookup record.directPatch.targetGuestPc = some target from ht]
    exact iff_of_false nofun nofun

theorem verifiedTarget_isSome
    (h : verifiedTarget guest haltPcs maxSteps targetPc target loop = some verified) :
    loop.step + 2 ≤ maxSteps ∧ targetPc ∉ haltPcs := by
  unfold verifiedTarget at h
  split at h
  case isTrue hkeep => exact ⟨by omega, hkeep.right⟩
  case isFalse => cases h

theorem settlePatch_ok (h : Ready haltPcs maxSteps block loop) :
    ∃ patched loop', settlePatch guest haltPcs maxSteps block loop = .ok (patched, loop') ∧
      Settled haltPcs maxSteps block loop patched loop' := by
  have ⟨record, hr, _, hsite⟩ := h.recorded
  have hactive := activeDirectPatchTarget_eq_none_iff h.linked hr
  unfold settlePatch
  split
  case h_1 hn => exact ⟨none, loop, rfl, h, rfl, record, hr, hactive.mp hn⟩
  case h_2 target ht =>
    have happ : record.directPatchApplied := by
      by_contra hn
      rw [hactive.mpr (eq_false_of_ne_true hn)] at ht
      cases ht
    dsimp only
    split
    case h_1 verified hv =>
      have ⟨hroom, hrun⟩ := verifiedTarget_isSome hv
      exact ⟨_, loop, rfl, h, rfl, record, hr, happ, congrArg _ hsite.symm, hroom, hrun⟩
    case h_2 =>
      rcases unpatchDirectExit_cases h.linked loop.pc with ⟨hn, _⟩ | ⟨_, tr', _, _, _, _, he⟩
      · rw [hn record hr] at happ
        cases happ
      have hl : (loop.translator.unpatchDirectExit loop.pc).2.Linked := h.linked.unpatchDirectExit
      have hc := @current?_unpatchDirectExit _ loop.pc h.linked
      have hr' := @record?_unpatchDirectExit _ loop.pc loop.pc h.linked
      rw [he] at hl hc hr' ⊢
      rw [hr, map_some, if_pos rfl] at hr'
      refine ⟨none, _, rfl, ⟨h.toBounded.translator hl, h.room, h.running, ?_⟩, rfl, _, hr', rfl⟩
      exact (congrFun hc _).trans h.current

end Settle

section Account

variable {executedPc nextPc : U64} {patched : Option (U64 × TranslatedBlock)}

theorem accountReturn_frame :
    (accountReturn block nextPc loop).translator = loop.translator ∧
      (accountReturn block nextPc loop).executed = loop.executed ∧
      (accountReturn block nextPc loop).step = loop.step := by
  unfold accountReturn
  dsimp only
  repeat' split
  all_goals exact ⟨rfl, rfl, rfl⟩

theorem accountExecuted_frame :
    (accountExecuted executedPc block nextPc loop).translator = loop.translator ∧
      (accountExecuted executedPc block nextPc loop).executed = loop.executed ∧
      (accountExecuted executedPc block nextPc loop).step = loop.step + 1 := by
  have ⟨ht, he, hs⟩ := @accountReturn_frame σ loop block nextPc
  exact ⟨ht, he, congrArg (· + 1) hs⟩

-- The number of blocks that are executed together.
def width : Option (U64 × TranslatedBlock) → Nat
  | none => 1
  | some _ => 2

theorem account_frame :
    (account executedPc block patched nextPc loop).2.translator = loop.translator ∧
      (account executedPc block patched nextPc loop).2.executed = loop.executed ∧
      (account executedPc block patched nextPc loop).2.step = loop.step + width patched := by
  unfold account
  split
  case h_1 => exact accountExecuted_frame
  case h_2 targetPc target =>
    dsimp only
    have ⟨ht, he, hs⟩ := @accountExecuted_frame σ
      (accountExecuted executedPc block targetPc { loop with
        stats := { loop.stats with
          directJitPatchExecutes := loop.stats.directJitPatchExecutes + 1 } }) target targetPc nextPc
    have ⟨ht', he', hs'⟩ := @accountExecuted_frame σ { loop with
        stats := { loop.stats with
          directJitPatchExecutes := loop.stats.directJitPatchExecutes + 1 } } block executedPc targetPc
    exact ⟨ht.trans ht', he.trans he', by rw [hs, hs']; rfl⟩

end Account

section Thread

variable {threadingPc : U64} {threading : TranslatedBlock}

theorem linkThreaded_ok (h : Ready haltPcs maxSteps block loop) :
    Ready haltPcs maxSteps block (linkThreaded haltPcs threadingPc threading loop) ∧
      (linkThreaded haltPcs threadingPc threading loop).step = loop.step := by
  unfold linkThreaded
  split
  case isFalse => exact ⟨h, rfl⟩
  case isTrue =>
    refine ⟨⟨h.toBounded.translator h.linked.patchDirectExit, h.room, h.running, ?_⟩, rfl⟩
    exact (congrFun current?_patchDirectExit _).trans h.current

theorem inner_link_ok {stats : DispatchStats} (h : Bounded haltPcs maxSteps loop) (hl : tr.Linked)
    (hroom : loop.step < maxSteps) (hrun : loop.pc ∉ haltPcs)
    (hc : tr.current? loop.pc = some { block with fromCache := true }) :
    let next := Next.inner block (linkThreaded haltPcs threadingPc threading
      { loop with translator := tr, stats := stats })
    next.Ok haltPcs maxSteps ∧ next.rounds maxSteps ≤ 2 * (maxSteps - loop.step) + 2 := by
  have ⟨hready, hstep⟩ := @linkThreaded_ok σ haltPcs maxSteps
    { loop with translator := tr, stats := stats } block threadingPc threading
    ⟨h.translator hl, hroom, hrun, hc⟩
  refine ⟨hready, ?_⟩
  rw [Next.rounds, hstep]
  exact Nat.le_succ _

theorem thread_ok (h : Bounded haltPcs maxSteps loop) :
    (thread compile guest around haltPcs maxSteps threadingPc threading loop).Ok haltPcs maxSteps ∧
      (thread compile guest around haltPcs maxSteps threadingPc threading loop).rounds maxSteps ≤
        2 * (maxSteps - loop.step) + 2 := by
  unfold thread
  split
  case isTrue => exact ⟨h, Nat.le_refl _⟩
  case isFalse hgo =>
    have hroom : loop.step < maxSteps := by
      by_contra hn
      exact hgo (.inl (Nat.le_of_not_lt hn))
    have hrun : loop.pc ∉ haltPcs := fun hm => hgo (.inr (.inr hm))
    dsimp only
    split
    · exact ⟨h, Nat.zero_le _⟩
    split
    case h_1 =>
      generalize ht : loop.translator.translate compile loop.pc _ _ = translated
      obtain ⟨installed, tr⟩ := translated
      have hl := linked_of_translate h.linked ht
      cases installed with
      | error => exact ⟨h.translator hl, Nat.zero_le _⟩
      | ok successor => exact inner_link_ok h hl hroom hrun (current?_translate ht)
    case h_2 cached hc => exact inner_link_ok h h.linked hroom hrun (current?_lookupCached hc)

end Thread

theorem Ready.patches {calls : List PatchCall} (h : Ready haltPcs maxSteps block loop) :
    Ready haltPcs maxSteps block
      { loop with translator := calls.foldl Translator.stepPatch loop.translator } := by
  have hkeeps : ∀ tr : Translator, tr.Linked →
      (calls.foldl Translator.stepPatch tr).Linked ∧
        (calls.foldl Translator.stepPatch tr).current? = tr.current? := by
    induction calls with
    | nil => exact fun tr ht => ⟨ht, rfl⟩
    | cons call calls hi =>
      intro tr ht
      have ⟨hl, hc⟩ := hi (tr.stepPatch call) ht.stepPatch
      refine ⟨hl, hc.trans ?_⟩
      cases call with
      | patch => exact current?_patchDirectExit
      | unpatch => exact current?_unpatchDirectExit ht
  have ⟨hl, hc⟩ := hkeeps loop.translator h.linked
  exact ⟨h.toBounded.translator hl, h.room, h.running, (congrFun hc _).trans h.current⟩

theorem executeBlock_settled {patched : Option (U64 × TranslatedBlock)}
    (h : Settled haltPcs maxSteps block loop patched loop') : ∃ pcs machine nextPc,
      executeBlock guest loop'.translator.pool block loop'.machine = some (pcs, machine, nextPc) ∧
      pcs.length = width patched ∧ loop'.step + width patched ≤ maxSteps ∧
      ∀ pc ∈ pcs, pc ∉ haltPcs := by
  have ⟨record, hr, hcases⟩ := h.record
  have ⟨record', hr', hentry, _⟩ := h.ready.recorded
  cases hr.symm.trans hr'
  unfold executeBlock
  rw [hentry]
  cases patched with
  | none =>
    rw [runCode_unpatched h.ready.linked hr hcases]
    refine ⟨_, _, _, rfl, rfl, h.ready.room, fun pc hm => ?_⟩
    rw [List.mem_singleton.mp hm]
    exact h.ready.running
  | some target =>
    have ⟨happ, htarget, hroom, hrun⟩ := hcases
    have ⟨code, hc, _⟩ := h.ready.linked.owned _ record hr
    have hsize : 0 < loop'.translator.pool.blocks.size := by
      refine List.length_pos_of_mem (AList.lookup_eq_some.mp hc)
    obtain ⟨rounds, hrounds⟩ : ∃ n, loop'.translator.pool.blocks.size + 1 = n + 2 :=
      ⟨loop'.translator.pool.blocks.size - 1, by omega⟩
    have ⟨machine, nextPc, he⟩ := @runCode_patched σ guest loop'.translator loop'.pc record
      loop'.machine rounds h.ready.linked hr happ
    rw [hrounds, he]
    refine ⟨_, _, _, rfl, rfl, hroom, fun pc hm => ?_⟩
    rcases List.mem_pair.mp hm with rfl | rfl
    · exact h.ready.running
    · exact htarget ▸ hrun

theorem inner_ok (h : Ready haltPcs maxSteps block loop) :
    ∃ next, inner compile guest around haltPcs maxSteps block loop = some next ∧
      next.Ok haltPcs maxSteps ∧ next.rounds maxSteps < 2 * (maxSteps - loop.step) + 1 := by
  have hp : Ready haltPcs maxSteps block { loop with
      translator := (around.patches loop.iteration).foldl Translator.stepPatch loop.translator } :=
    h.patches
  have ⟨patched, loop', hs, hsettled⟩ := @settlePatch_ok σ guest haltPcs maxSteps _ block hp
  have ⟨pcs, machine, nextPc, he, hlen, hwithin, hspared⟩ := @executeBlock_settled σ guest haltPcs
    maxSteps _ loop' block patched hsettled
  have hstep : loop'.step = loop.step := hsettled.step
  have hframe := @account_frame σ { loop' with executed := loop'.executed ++ pcs } block loop'.pc
    nextPc patched
  unfold inner
  dsimp only
  rw [hs]
  dsimp only
  rw [he, map_some]
  refine ⟨_, rfl, ?_⟩
  dsimp only
  generalize account loop'.pc block patched nextPc
    { loop' with executed := loop'.executed ++ pcs } = accounted at hframe
  obtain ⟨⟨threadingPc, threading⟩, loop₁⟩ := accounted
  have ⟨ht, hexec, hcount⟩ := hframe
  dsimp only at ht hexec hcount ⊢
  have hb : Bounded haltPcs maxSteps { loop₁ with
      pc := nextPc
      machine := guest.setGuestPc nextPc machine
      iteration := loop₁.iteration + 1 } := by
    refine ⟨ht ▸ hsettled.ready.linked, ?_, ?_, fun pc hm => ?_⟩
    · rw [hexec, hcount, List.length_append, hlen, hsettled.ready.counted]
    · rw [hcount]
      exact hwithin
    · rw [hexec] at hm
      exact (List.mem_append.mp hm).elim (hsettled.ready.spared pc) (hspared pc)
  have ⟨hok, hrounds⟩ := @thread_ok σ guest compile around haltPcs maxSteps _ threadingPc threading hb
  refine ⟨hok, Nat.lt_of_le_of_lt hrounds ?_⟩
  have hwidth : 1 ≤ width patched := by cases patched <;> simp [width]
  dsimp only
  omega

theorem go_ok {next : Next σ} {rounds : Nat} (h : next.Ok haltPcs maxSteps)
    (hr : next.rounds maxSteps ≤ rounds) : ∃ result loop,
      go compile guest around haltPcs maxSteps rounds next = some (result, loop) ∧
        Bounded haltPcs maxSteps loop := by
  induction rounds generalizing next with
  | zero =>
    cases next with
    | done result loop => exact ⟨result, loop, rfl, h⟩
    | outer | inner => exact absurd hr (Nat.not_succ_le_zero _)
  | succ rounds hi =>
    cases next with
    | done result loop => exact ⟨result, loop, rfl, h⟩
    | outer loop =>
      have ⟨hok, hlt⟩ := @outer_ok σ guest compile around haltPcs maxSteps loop h
      exact hi hok (Nat.le_of_lt_succ (Nat.lt_of_lt_of_le hlt hr))
    | inner block loop =>
      have ⟨next, hn, hok, hlt⟩ := @inner_ok σ guest compile around haltPcs maxSteps loop block h
      have ⟨result, loop', hg, hb⟩ := hi hok (Nat.le_of_lt_succ (Nat.lt_of_lt_of_le hlt hr))
      exact ⟨result, loop', by rw [go, hn]; exact hg, hb⟩

end Invariant

-- A run returns, with at most as many blocks executed as there are steps, none of them at a halt pc.
-- The exits that are patched before are those of any calls.
theorem run_executes (compile : Compiler) (guest : Guest σ) (around : Surroundings)
    (haltPcs : List U64) (maxSteps : Nat) (entryPc : U64) (machine : σ) (calls : List Call) :
    ∃ result loop,
      run compile guest around haltPcs maxSteps entryPc
        (calls.foldl (Translator.step compile) .new) machine = some (result, loop) ∧
      loop.executed.length ≤ maxSteps ∧ ∀ pc ∈ loop.executed, pc ∉ haltSentinel :: haltPcs := by
  have ⟨result, loop, hg, hb⟩ := @go_ok σ guest compile around (haltSentinel :: haltPcs) maxSteps
    (.outer (start guest entryPc (calls.foldl (Translator.step compile) .new) machine))
    (2 * maxSteps + 2) ⟨linked_new.steps, rfl, Nat.zero_le _, nofun⟩ (Nat.le_refl _)
  exact ⟨result, loop, hg, hb.counted ▸ hb.within, hb.spared⟩

end Dispatcher

end Prisma.Core
