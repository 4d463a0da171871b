import Prisma.Passes.RedundantLoad
import Prisma.Interp.Theorems.Memory

namespace Prisma.RedundantLoad

open Machine ByteMemory

-- The addresses of the vector stores since the load that the table has for an address and size.
abbrev Since := Ref → OpSize → List U64

def Since.none : Since :=
  fun _ _ => []

def Since.note (since : Since) (lastLoad : LastLoad) (stmt : Stmt) (s : MemState) : Since :=
  match stmt.op with
  | .storeVec addr _ => fun r z => s.env.vals addr :: since r z
  | .loadMem addr size =>
    if stmt.result.isSome ∧ lastLoad addr size = .none then
      fun r z => if r = addr ∧ z = size then [] else since r z
    else since
  | _ => since

-- What the pass and the run know before a statement.
structure Known where
  lastLoad : LastLoad
  since : Since

def Known.next (known : Known) (stmt : Stmt) (s : MemState) : Known where
  lastLoad := (forwardLoad known.lastLoad stmt).1
  since := known.since.note known.lastLoad stmt s

-- No vector store since the earlier load touches the bytes that are loaded again. All other
-- operations that can write memory clear the table or end the block.
def ReloadExact (known : Known) (stmt : Stmt) (s : MemState) : Prop :=
  match stmt.result, stmt.op with
  | some _, .loadMem addr size =>
    (known.lastLoad addr size).isSome →
      ∀ w ∈ known.since addr size, Apart (s.env.vals addr) size.bytes w 16
  | _, _ => True

instance ReloadExact.decidable (known : Known) (stmt : Stmt) (s : MemState) :
    Decidable (ReloadExact known stmt s) := by
  apply stmt.casesOn (motive := (Decidable <| ReloadExact known · s))
  intro result op
  apply op.casesOn (motive := (Decidable <| ReloadExact known ⟨result, ·⟩ s)) <;> intros <;>
    apply result.casesOn (motive := (Decidable <| ReloadExact known ⟨·, _⟩ s)) <;> intros <;>
    dsimp only [ReloadExact] <;> infer_instance

def ReloadsExact (sem : OpSemantics) (stmts : List Stmt) (regs : GuestRegs) (mem : Memory) : Prop :=
  Along (memStep sem) Known.next ReloadExact ⟨.empty, .none⟩ stmts (.entry regs mem)

-- The table is right about memory, as far as no vector store touched what was loaded.
def Sound (known : Known) (defined : List Ref) (s : MemState) : Prop :=
  ∀ r z prev, known.lastLoad r z = some prev → r ∈ defined ∧ prev ∈ defined ∧
    ((∀ w ∈ known.since r z, Apart (s.env.vals r) z.bytes w 16) →
      s.env.vals prev = loadScalar s.mem (s.env.vals r) z)

theorem forwardLoad_cases (lastLoad : LastLoad) (stmt : Stmt) :
    (∃ d addr size prev, stmt = ⟨some d, .loadMem addr size⟩ ∧ lastLoad addr size = some prev ∧
      forwardLoad lastLoad stmt = (lastLoad, ⟨some d, .binOp .or prev prev size⟩)) ∨
    (∃ d addr size, stmt = ⟨some d, .loadMem addr size⟩ ∧ lastLoad addr size = none ∧
      forwardLoad lastLoad stmt = (lastLoad.insert addr size d, stmt)) ∨
    forwardLoad lastLoad stmt = (.empty, stmt) ∨
    (∃ result addr value, stmt = ⟨result, .storeVec addr value⟩ ∧
      forwardLoad lastLoad stmt = (lastLoad, stmt)) ∨
    (stmt.op.writesMemory = false ∧ (∀ since s, Since.note since lastLoad stmt s = since) ∧
      forwardLoad lastLoad stmt = (lastLoad, stmt)) := by
  have ⟨result, op⟩ := stmt
  cases op
  case loadMem addr size =>
    cases result
    case none => exact .inr (.inr (.inr (.inr ⟨rfl, fun _ _ => rfl, rfl⟩)))
    case some d =>
      cases hl : lastLoad addr size
      case none => exact .inr (.inl ⟨_, _, _, rfl, hl, by simp [forwardLoad, hl]⟩)
      case some prev => exact .inl ⟨_, _, _, _, rfl, hl, by simp [forwardLoad, hl]⟩
  case storeMem | storeMemTSO | atomicCmpxchg | atomicCmpxchgPair | fence =>
    exact .inr (.inr (.inl rfl))
  case storeVec => exact .inr (.inr (.inr (.inl ⟨_, _, _, rfl, rfl⟩)))
  all_goals exact .inr (.inr (.inr (.inr ⟨rfl, fun _ _ => rfl, rfl⟩)))

namespace Sound

variable {known : Known} {defined : List Ref} {sem : OpSemantics} {stmt : Stmt} {stmts : List Stmt}
  {s s' : MemState}

theorem empty (since : Since) : Sound ⟨.empty, since⟩ defined s :=
  nofun

variable (h : Sound known defined s)

include h

-- A step that keeps the table keeps it right if loads that no store is known to touch see the same
-- memory as before.
theorem step (hs : SsaFrom defined (stmt :: stmts))
    (hf : Frame stmt s s') (hk : ∀ {r z}, (∀ w ∈ since r z, Apart (s.env.vals r) z.bytes w 16) →
      (∀ w ∈ known.since r z, Apart (s.env.vals r) z.bytes w 16) ∧
        loadScalar s'.mem (s.env.vals r) z = loadScalar s.mem (s.env.vals r) z) :
    Sound ⟨known.lastLoad, since⟩ (stmt.defs ++ defined) s' := by
  intro r z prev hl
  have ⟨hr, hp, hv⟩ := h r z prev hl
  refine ⟨List.mem_append_right _ hr, List.mem_append_right _ hp, ?_⟩
  have hfresh : ∀ q ∈ defined, q ∉ stmt.defs := fun q hq hd => hs.defs_not_mem hd hq
  rw [hf.vals r (hfresh r hr), hf.vals prev (hfresh prev hp)]
  intro ha
  have ⟨ha, hm⟩ := hk ha
  rw [hm, hv ha]

theorem step_of_mem_eq (hs : SsaFrom defined (stmt :: stmts))
    (hf : Frame stmt s s') (hm : s'.mem = s.mem) :
    Sound known (stmt.defs ++ defined) s' :=
  h.step hs hf fun ha => ⟨ha, by rw [hm]⟩

theorem step_storeVec (hs : SsaFrom defined (⟨result, .storeVec addr value⟩ :: stmts))
    (hn : memStep sem ⟨result, .storeVec addr value⟩ s = .next s') :
    Sound ⟨known.lastLoad, known.since.note known.lastLoad ⟨result, .storeVec addr value⟩ s⟩
      (Stmt.defs ⟨result, .storeVec addr value⟩ ++ defined) s' := by
  refine h.step hs (memStep_frame hn) fun {r z} ha => ?_
  have ⟨hw, ha⟩ := List.forall_mem_cons.mp ha
  cases hn
  exact ⟨ha, loadScalar_storeVector_of_apart hw⟩

theorem step_insert (hl : known.lastLoad addr size = none)
    (hs : SsaFrom defined (⟨some d, .loadMem addr size⟩ :: stmts))
    (hn : memStep sem ⟨some d, .loadMem addr size⟩ s = .next s') :
    Sound ⟨known.lastLoad.insert addr size d,
      known.since.note known.lastLoad ⟨some d, .loadMem addr size⟩ s⟩
      (Stmt.defs ⟨some d, .loadMem addr size⟩ ++ defined) s' := by
  have hf := memStep_frame hn
  have hm : s'.mem = s.mem := hf.mem rfl
  have ha : addr ∈ defined := hs.operands_mem (by simp [Op.operandRefs])
  intro r z prev he
  by_cases hk : r = addr ∧ z = size
  case pos =>
    obtain ⟨rfl, rfl⟩ := hk
    simp only [LastLoad.insert, and_self, if_true, Option.some.injEq] at he
    subst he
    refine ⟨List.mem_append_right _ ha, List.mem_append_left _ (by simp [Stmt.defs]), fun _ => ?_⟩
    rw [hm, hf.vals r fun hd => hs.defs_not_mem hd ha]
    cases hn
    simp [MemState.define]
  case neg =>
    simp only [LastLoad.insert, if_neg hk] at he
    have hsince : known.since.note known.lastLoad ⟨some d, .loadMem addr size⟩ s r z =
        known.since r z := by
      simp [Since.note, hl, hk]
    simp only [hsince]
    exact h.step_of_mem_eq hs hf hm r z prev he

end Sound

-- The relation that the pass keeps: source and target are in the same state, and the table is right
-- about it.
structure Related (sem : OpSemantics) (lastLoad : LastLoad) (stmts : List Stmt) (s t : MemState) :
    Prop where
  eq : s = t
  sound : ∃ defined since, SsaFrom defined stmts ∧ Sound ⟨lastLoad, since⟩ defined s ∧
    Along (memStep sem) Known.next ReloadExact ⟨lastLoad, since⟩ stmts s

theorem Related.step (h : Related sem lastLoad (stmt :: stmts) s t) :
    Matches (memStep sem) (fun _ => True) (Related sem (forwardLoad lastLoad stmt).1 stmts)
      (some (forwardLoad lastLoad stmt).2) t (memStep sem stmt s) := by
  obtain ⟨rfl, defined, since, hs, hc, hx⟩ := h
  -- A statement that stays does the same in both, so the table is all there is to show.
  have hsame (hf : (forwardLoad lastLoad stmt).2 = stmt)
      (hk : ∀ s', memStep sem stmt s = .next s' →
        Sound (Known.next ⟨lastLoad, since⟩ stmt s) (stmt.defs ++ defined) s') :
      Matches (memStep sem) (fun _ => True) (Related sem (forwardLoad lastLoad stmt).1 stmts)
        (some (forwardLoad lastLoad stmt).2) s (memStep sem stmt s) := by
    rw [hf]
    exact .refl fun s' hn => ⟨rfl, _, _, hs.tail, hk s' hn, hx.tail hn⟩
  obtain ⟨d, addr, size, prev, rfl, hl, hf⟩ | ⟨d, addr, size, rfl, hl, hf⟩ | hf |
    ⟨result, addr, value, rfl, hf⟩ | ⟨hw, hn, hf⟩ := forwardLoad_cases lastLoad stmt
  · have hn : memStep sem ⟨some d, .loadMem addr size⟩ s =
        .next (s.define (some d) (.scalar (loadScalar s.mem (s.env.vals addr) size))) := rfl
    have hv := (hc addr size prev hl).right.right (hx.head (by simp [hl]))
    have hcopy : memStep sem ⟨some d, .binOp .or prev prev size⟩ s = memStep sem ⟨some d, .loadMem addr size⟩ s := by
      rw [memStep_of_not_accessesMemory rfl]
      simp only [Option.isSome_some, sem.copy, hv, mask_loadScalar, hn]
    have hk : Known.next ⟨lastLoad, since⟩ ⟨some d, .loadMem addr size⟩ s = ⟨lastLoad, since⟩ := by
      simp [Known.next, hf, Since.note, hl]
    have hs' := hx.tail hn
    rw [hf, ← hcopy]
    rw [hk] at hs'
    refine .refl fun s' ht => ?_
    rw [hcopy] at ht
    have hm := memStep_frame ht
    cases ht
    exact ⟨rfl, _, _, hs.tail, hc.step_of_mem_eq hs hm rfl, hs'⟩
  · refine hsame (by rw [hf]) fun s' hn => ?_
    simp only [Known.next, hf]
    exact hc.step_insert hl hs hn
  · refine hsame (by rw [hf]) fun s' hn => ?_
    simp only [Known.next, hf]
    exact .empty _
  · refine hsame (by rw [hf]) fun s' hn => ?_
    simp only [Known.next, hf]
    exact hc.step_storeVec hs hn
  · refine hsame (by rw [hf]) fun s' hm => ?_
    simp only [Known.next, hf, hn]
    have hf := memStep_frame hm
    exact hc.step_of_mem_eq hs hf (hf.mem hw)

-- Loads from `a`, stores a vector to `w` and loads from `a` again.
def reloadBlock (a w lo hi : U64) (size : OpSize) : List Stmt :=
  [⟨some 0, .constant a .i64⟩, ⟨some 1, .constant w .i64⟩, ⟨some 2, .vecConstant lo hi⟩,
    ⟨some 3, .loadMem 0 size⟩, ⟨none, .storeVec 1 2⟩, ⟨some 4, .loadMem 0 size⟩,
    ⟨none, .storeReg .rax 4 .i64⟩]

section ReloadBlock

variable {a w lo hi : U64} {size : OpSize} {regs : GuestRegs} {mem : Memory}

attribute [local simp] reloadBlock MemState.define Env.define MemState.entry

theorem interpretMem_reloadBlock :
    interpretMem .interp (reloadBlock a w lo hi size) regs mem = some
      { outcome := .fallthrough
        regs := storeReg regs .rax (loadScalar (storeVector mem w (hi ++ lo)) a size) .i64
        mem := storeVector mem w (hi ++ lo) } := by
  -- With implicit proofs the kernel would run the accesses to check the whole block at once.
  simp -implicitDefEqProofs [interpretMem, run, Cpu.entry, MemState.fallthrough, Step.outcome]

theorem interpretMem_reloadBlock_forwarded :
    interpretMem .interp (redundantLoadEliminate (.single (reloadBlock a w lo hi size))).stmts
      regs mem = some
      { outcome := .fallthrough
        regs := storeReg regs .rax (loadScalar mem a size) .i64
        mem := storeVector mem w (hi ++ lo) } := by
  simp [interpretMem, run, memStep, OpSemantics.interp, evalOp, Cpu.entry, MemState.fallthrough,
    Step.outcome, redundantLoadEliminate, forwardLoad, LastLoad.insert, LastLoad.empty, evalBinop]

theorem reloadsExact_reloadBlock (h : Apart a size.bytes w 16) :
    ReloadsExact .interp (reloadBlock a w lo hi size) regs mem := by
  simp [ReloadsExact, Along, memStep, OpSemantics.interp, evalOp, ReloadExact, Known.next,
    forwardLoad, LastLoad.empty, LastLoad.insert, Since.note, Since.none, h]

theorem loadScalar_storeVector_ne (ha : ¬Apart a size.bytes w 16) :
    loadScalar (storeVector (fun _ => 0) w (BitVec.allOnes 64 ++ BitVec.allOnes 64)) a size ≠
      loadScalar (fun _ => 0) a size := by
  have ones : ∀ i < 8 * 16, (BitVec.allOnes 64 ++ BitVec.allOnes 64).getLsbD i = true := by
    intro i hi
    rw [BitVec.getLsbD_append]
    split <;> simp only [BitVec.getLsbD_allOnes, decide_eq_true_eq] <;> omega
  exact load_store_ones_ne size.bytes_pos (by decide) size.bytes_le ones ha

-- The condition of the pass cannot be weakened: a vector store that touches the bytes between the
-- two loads shows in some memory.
theorem reloadBlock_preserved_iff :
    (∀ lo hi mem,
      interpretMem .interp (redundantLoadEliminate (.single (reloadBlock a w lo hi size))).stmts
        regs mem = interpretMem .interp (reloadBlock a w lo hi size) regs mem) ↔
    Apart a size.bytes w 16 := by
  simp only [interpretMem_reloadBlock, interpretMem_reloadBlock_forwarded, Option.some.injEq,
    MemOutcome.mk.injEq, true_and, and_true, storeReg_inj, mask_i64]
  constructor
  case mp =>
    intro h
    by_contra ha
    exact loadScalar_storeVector_ne ha (h _ _ _).symm
  case mpr =>
    intro ha lo hi mem
    rw [loadScalar_storeVector_of_apart ha]

end ReloadBlock

-- In every run in which no vector store touches what is loaded again, the block ends in the same way,
-- with the same registers and memory.
theorem redundantLoadEliminate_preserves {sem : OpSemantics} {stmts : List Stmt} {regs : GuestRegs}
    {mem : Memory} {o : MemOutcome} (hs : Ssa stmts) (ho : interpretMem sem stmts regs mem = some o)
    (hr : ReloadsExact sem stmts regs mem) :
    interpretMem sem (redundantLoadEliminate (.single stmts)).stmts regs mem = some o := by
  rw [redundantLoadEliminate, Function.stmts_mapBlocks_single]
  refine run_rewrite (G := fun _ => True) (R := Related sem) ?nil ?cons
    ⟨rfl, _, _, hs, .empty _, hr⟩ ho trivial
  case nil =>
    intro lastLoad s t h
    rw [h.eq]
  case cons =>
    intro lastLoad stmt stmts s t h
    exact h.step

theorem redundantLoadEliminate_preserves_reloadBlock :
    ReloadsExact .interp (reloadBlock 0x1000 0x1008 1 2 .i64) .default (fun _ => 0) ∧
    (interpretMem .interp (redundantLoadEliminate
      (.single (reloadBlock 0x1000 0x1008 1 2 .i64))).stmts .default fun _ => 0).isSome := by
  have h : ReloadsExact .interp (reloadBlock 0x1000 0x1008 1 2 .i64) .default (fun _ => 0) :=
    reloadsExact_reloadBlock (by decide)
  refine ⟨h, ?_⟩
  rw [redundantLoadEliminate_preserves (by decide) interpretMem_reloadBlock h]
  rfl

-- The vector store overwrites the byte that was loaded, and the second load does not see it.
theorem redundantLoadEliminate_not_preserves :
    Ssa (reloadBlock 0x100f 0x1000 0 (BitVec.allOnes 64) .i8) ∧
    ((interpretMem .interp (reloadBlock 0x100f 0x1000 0 (BitVec.allOnes 64) .i8) .default
      fun _ => 0).map (·.regs.gpr .rax)) = some 0xff ∧
    ((interpretMem .interp (redundantLoadEliminate
      (.single (reloadBlock 0x100f 0x1000 0 (BitVec.allOnes 64) .i8))).stmts .default
      fun _ => 0).map (·.regs.gpr .rax)) = some 0 := by
  rw [interpretMem_reloadBlock, interpretMem_reloadBlock_forwarded]
  decide +kernel

end Prisma.RedundantLoad
