import Prisma.Lib.Execution
import Prisma.Interp.Theorems.Arith
import Prisma.Interp.Theorems.Block
import Prisma.Interp.Theorems.Flags
import Prisma.Interp.Theorems.Rflags
import Prisma.Decoder.Theorems.Prefixes

-- Interpreting what the decoder emits. The judgements carry the values of the refs that are still in
-- use, so that neither the numbers of the refs nor the statements appear in them.

namespace Prisma.Decoder

open Emission Machine List BitVec Option

abbrev Facts := List (Ref × Value)

def Holds (env : Env) : Ref × Value → Prop
  | (r, .scalar v) => env.vals r = v
  | (r, .vector v) => env.vecVals r = v
  | (_, .none) => True

-- The values of refs below `n`.
structure Knows (Γ : Facts) (n : Nat) (s : State) : Prop where
  lt : ∀ p ∈ Γ, p.1 < n
  holds : ∀ p ∈ Γ, Holds s.env p

-- `Γ` says of the ref that it holds the value.
class inductive Lookup : Facts → Ref → outParam Value → Prop
  | here {Γ : Facts} {r : Ref} {v : Value} : Lookup ((r, v) :: Γ) r v
  | there {Γ : Facts} {r : Ref} {v : Value} {p : Ref × Value} (h : Lookup Γ r v) : Lookup (p :: Γ) r v

theorem Lookup.mem (h : Lookup Γ r v) : (r, v) ∈ Γ := by
  induction h with
  | here => exact mem_cons_self
  | there _ ih => exact mem_cons_of_mem _ ih

theorem Lookup.append (Δ : Facts) (h : Lookup Γ r v) : Lookup (Δ ++ Γ) r v := by
  induction Δ with
  | nil => exact h
  | cons p Δ ih => exact ih.there

theorem Lookup.nth {Γ : Facts} (i : Nat) (h : Γ[i]? = some (r, v)) : Lookup Γ r v := by
  induction Γ generalizing i with
  | nil => cases h
  | cons p Γ ih =>
    cases i with
    | zero => cases h; exact .here
    | succ i => exact (ih i h).there

-- Instance resolution looks a ref up from the youngest fact on.
instance Lookup.later [h : Lookup Γ r v] : Lookup (p :: Γ) r v :=
  h.there

instance Lookup.youngest : Lookup ((r, v) :: Γ) r v :=
  .here

instance Lookup.cons_append [h : Lookup (p :: (Δ ++ Γ)) r v] : Lookup (p :: Δ ++ Γ) r v :=
  h

namespace Knows

variable {Γ Δ : Facts} {n : Nat} {s s' : State} {r : Ref}

theorem vals (h : Knows Γ n s) (hr : Lookup Γ r (.scalar v)) : s.env.vals r = v :=
  h.holds _ hr.mem

theorem mono (h : Knows Γ n s) (hs : Δ ⊆ Γ) : Knows Δ n s :=
  ⟨fun p hp => h.lt p (hs hp), fun p hp => h.holds p (hs hp)⟩

theorem nil : Knows [] n s :=
  ⟨nofun, nofun⟩

theorem succ (h : Knows Γ n s) (he : s'.env = s.env) : Knows Γ (n + 1) s' :=
  ⟨fun p hp => Nat.lt_succ_of_lt (h.lt p hp), fun p hp => he ▸ h.holds p hp⟩

theorem define (h : Knows Γ n s) (value : Value) (he : s'.env = s.env.define (some n) value) :
    Knows ((n, value) :: Γ) (n + 1) s' := by
  constructor
  case lt =>
    intro p hp
    cases mem_cons.mp hp with
    | inl hp => exact hp ▸ Nat.lt_succ_self n
    | inr hp => exact Nat.lt_succ_of_lt (h.lt p hp)
  case holds =>
    intro p hp
    rw [he]
    cases mem_cons.mp hp with
    | inl hp =>
      subst hp
      cases value with
      | scalar v => exact Env.define_scalar_vals ..
      | vector v => exact Env.define_vector_vecVals ..
      | none => trivial
    | inr hp =>
      have hlt := h.lt p hp
      have hp := h.holds p hp
      obtain ⟨r, v⟩ := p
      have hne : some n ≠ some r := fun h => Nat.ne_of_gt hlt (Option.some.inj h)
      cases v with
      | scalar v => exact (Env.define_vals_of_ne hne).trans hp
      | vector v => exact (Env.define_vecVals_of_ne hne).trans hp
      | none => trivial

end Knows

-- The decoder succeeds, and from a state with the values of `Γ` the statements run to the end. `Q`
-- holds of the result, of further values that are known then, and of the machine state.
def Evaluates {α : Type} (Γ : Facts) (cpu : Cpu) (m : Emit α) (Q : α → Facts → Cpu → Prop) : Prop :=
  ∀ n s, Knows Γ n s → s.cpu = cpu →
    Runs step m n s fun a n' s' => ∃ Δ, Knows (Δ ++ Γ) n' s' ∧ Q a Δ s'.cpu

-- The decoder succeeds, and one of the statements ends the run, where `none` is a panic.
def Stops {α : Type} (Γ : Facts) (cpu : Cpu) (m : Emit α) (o : Option (BlockOutcome × GuestRegs)) :
    Prop :=
  ∀ n s, Knows Γ n s → s.cpu = cpu → Halts step m n s o

-- The statements compute a value and change the machine state.
abbrev Yields (Γ : Facts) (cpu : Cpu) (m : Emit Ref) (v : Value) (cpu' : Cpu) : Prop :=
  Evaluates Γ cpu m fun r Δ cpu'' => Δ = [(r, v)] ∧ cpu'' = cpu'

-- The statements compute a value and leave the machine state alone.
abbrev Computes (Γ : Facts) (cpu : Cpu) (m : Emit Ref) (v : Value) : Prop :=
  Evaluates Γ cpu m fun r Δ cpu' => Δ = [(r, v)] ∧ cpu' = cpu

-- The statements leave the registers in a known state.
abbrev Leaves {α : Type} (Γ : Facts) (cpu : Cpu) (m : Emit α) (regs : GuestRegs) : Prop :=
  Evaluates Γ cpu m fun _ Δ cpu' => Δ = [] ∧ cpu'.regs = regs

-- The statements change the machine state.
abbrev Updates {α : Type} (Γ : Facts) (cpu : Cpu) (m : Emit α) (cpu' : Cpu) : Prop :=
  Evaluates Γ cpu m fun _ Δ cpu'' => Δ = [] ∧ cpu'' = cpu'

section Rules

variable {α β : Type} {Γ : Facts} {cpu cpu' : Cpu} {m : Emit α} {f : α → Emit β}
  {Q Q' : α → Facts → Cpu → Prop} {P : β → Facts → Cpu → Prop} {o : Option (BlockOutcome × GuestRegs)}

namespace Evaluates

theorem pure (hΔ : Δ ⊆ Γ) (h : Q a Δ cpu) : Evaluates Γ cpu (Pure.pure a) Q :=
  fun _ _ hk hc => .pure ⟨Δ, hk.mono (append_subset.mpr ⟨hΔ, List.Subset.refl _⟩), hc ▸ h⟩

theorem bind (hm : Evaluates Γ cpu m Q)
    (hf : ∀ a Δ cpu', Q a Δ cpu' → Evaluates (Δ ++ Γ) cpu' (f a) P) :
    Evaluates Γ cpu (m >>= f) P := by
  intro n s hk hc
  refine .bind ((hm n s hk hc).mono fun a n' s' ⟨Δ, hk', hq⟩ => ?_)
  refine (hf a Δ s'.cpu hq n' s' hk' rfl).mono fun b n'' s'' ⟨Θ, hk'', hp⟩ => ⟨Θ, hk''.mono ?_, hp⟩
  exact append_subset.mpr ⟨subset_append_left .., fun p hp => by simp [hp]⟩

theorem mono (h : Evaluates Γ cpu m Q) (hQ : ∀ a Δ cpu, Q a Δ cpu → Q' a Δ cpu) :
    Evaluates Γ cpu m Q' :=
  fun n s hk hc => (h n s hk hc).mono fun _ _ _ ⟨Δ, hk', hq⟩ => ⟨Δ, hk', hQ _ _ _ hq⟩

theorem bind_lift {e : Parse α} {a : α} (he : e = .ok a) (h : Evaluates Γ cpu (f a) P) :
    Evaluates Γ cpu (liftM e >>= f) P :=
  fun n s hk hc => .bind_lift he (h n s hk hc)

end Evaluates

theorem Yields.bind {m : Emit Ref} {f : Ref → Emit β} {v : Value} (hm : Yields Γ cpu m v cpu')
    (hf : ∀ r, Evaluates ((r, v) :: Γ) cpu' (f r) P) : Evaluates Γ cpu (m >>= f) P :=
  Evaluates.bind hm fun r _ _ ⟨hΔ, hc⟩ => by subst hΔ hc; exact hf r

theorem Computes.bind {m : Emit Ref} {f : Ref → Emit β} {v : Value} (hm : Computes Γ cpu m v)
    (hf : ∀ r, Evaluates ((r, v) :: Γ) cpu (f r) P) : Evaluates Γ cpu (m >>= f) P :=
  Yields.bind hm hf

theorem Computes.of_eq {m : Emit Ref} {v v' : Value} (hm : Computes Γ cpu m v) (h : v = v') :
    Computes Γ cpu m v' :=
  h ▸ hm

theorem Yields.updates {m : Emit Ref} {v : Value} (h : Yields Γ cpu m v cpu') : Updates Γ cpu m cpu' :=
  fun n s hk hc => (h n s hk hc).mono fun _ _ _ ⟨_, hk', _, hc'⟩ =>
    ⟨[], hk'.mono (subset_append_right ..), rfl, hc'⟩

theorem Computes.pure (h : Lookup Γ r v) : Computes Γ cpu (Pure.pure r) v :=
  Evaluates.pure (cons_subset.mpr ⟨h.mem, nil_subset _⟩) ⟨rfl, rfl⟩

theorem Updates.bind (hm : Updates Γ cpu m cpu') (hf : ∀ a, Evaluates Γ cpu' (f a) P) :
    Evaluates Γ cpu (m >>= f) P :=
  Evaluates.bind hm fun a _ _ ⟨hΔ, hc⟩ => by subst hΔ hc; exact hf a

theorem Leaves.bind {regs : GuestRegs} (hm : Leaves Γ cpu m regs)
    (hf : ∀ a cpu', cpu'.regs = regs → Evaluates Γ cpu' (f a) P) : Evaluates Γ cpu (m >>= f) P :=
  Evaluates.bind hm fun a _ cpu' ⟨hΔ, hc⟩ => by subst hΔ; exact hf a cpu' hc

namespace Stops

theorem bind (h : Stops Γ cpu m o) [hf : ∀ a, TotalSpec (f a)] : Stops Γ cpu (m >>= f) o :=
  fun n s hk hc => (h n s hk hc).bind fun a => (hf a).total

theorem after (hm : Evaluates Γ cpu m Q)
    (hf : ∀ a Δ cpu', Q a Δ cpu' → Stops (Δ ++ Γ) cpu' (f a) o) : Stops Γ cpu (m >>= f) o :=
  fun n s hk hc => .after <|
    (hm n s hk hc).mono fun a n' s' ⟨Δ, hk', hq⟩ => hf a Δ s'.cpu hq n' s' hk' rfl

end Stops

theorem Yields.stops {m : Emit Ref} {f : Ref → Emit β} {v : Value} (hm : Yields Γ cpu m v cpu')
    (hf : ∀ r, Stops ((r, v) :: Γ) cpu' (f r) o) : Stops Γ cpu (m >>= f) o :=
  Stops.after hm fun r _ _ ⟨hΔ, hc⟩ => by subst hΔ hc; exact hf r

theorem Computes.stops {m : Emit Ref} {f : Ref → Emit β} {v : Value} (hm : Computes Γ cpu m v)
    (hf : ∀ r, Stops ((r, v) :: Γ) cpu (f r) o) : Stops Γ cpu (m >>= f) o :=
  Yields.stops hm hf

theorem Leaves.stops (hm : Leaves Γ cpu m regs)
    (hf : ∀ a cpu', cpu'.regs = regs → Stops Γ cpu' (f a) o) : Stops Γ cpu (m >>= f) o :=
  Stops.after hm fun a _ cpu' ⟨hΔ, hc⟩ => by subst hΔ; exact hf a cpu' hc

end Rules

section Statements

variable {Γ : Facts} {cpu cpu' : Cpu} {op : Op} {o : Option (BlockOutcome × GuestRegs)}

-- What an operation does when its operands have the values of `Γ`.
def EvalsTo (Γ : Facts) (cpu : Cpu) (op : Op) (hasResult : Bool) (r : OpStep) : Prop :=
  ∀ n s, Knows Γ n s → evalOp op hasResult s.env cpu = r

theorem pushRef_yields (h : EvalsTo Γ cpu op true (.next (cpu', value))) :
    Yields Γ cpu (pushRef op) value cpu' := by
  intro n s hk hc
  have hs : step ⟨some n, op⟩ s = .next { env := s.env.define (some n) value, cpu := cpu' } := by
    apply step_of_evalOp_next
    rw [hc]
    exact h n s hk
  exact .fresh_push hs ⟨[(n, value)], hk.define value rfl, rfl, rfl⟩

theorem pushRef_updates (value : Value) (h : EvalsTo Γ cpu op true (.next (cpu', value))) :
    Updates Γ cpu (pushRef op) cpu' :=
  (pushRef_yields h).updates

theorem pushStmt_updates (value : Value) (h : EvalsTo Γ cpu op false (.next (cpu', value))) :
    Updates Γ cpu (pushStmt op) cpu' := by
  intro n s hk hc
  have hs : step ⟨none, op⟩ s = .next { env := s.env, cpu := cpu' } := by
    have he : evalOp op false s.env s.cpu = .next (cpu', value) := hc ▸ h n s hk
    have hs : step ⟨none, op⟩ s = .next { env := s.env.define none value, cpu := cpu' } :=
      step_of_evalOp_next he
    rw [hs, Env.define_none]
  exact .push hs ⟨[], hk.succ rfl, rfl, rfl⟩

theorem step_of_evalOp_ended {result : Option Ref} {s : State}
    (h : evalOp op result.isSome s.env s.cpu = ended o) : step ⟨result, op⟩ s = ended o := by
  rw [step, h]
  cases o <;> rfl

theorem pushStmt_stops (h : EvalsTo Γ cpu op false (ended o)) : Stops Γ cpu (pushStmt op) o := by
  intro n s hk hc
  refine .push (step_of_evalOp_ended ?_)
  rw [hc]
  exact h n s hk

theorem pushRef_stops (h : EvalsTo Γ cpu op true (ended o)) : Stops Γ cpu (pushRef op) o := by
  intro n s hk hc
  refine .fresh_push (step_of_evalOp_ended ?_)
  rw [hc]
  exact h n s hk

instance : TotalSpec (pushRef op) :=
  ⟨.bind .fresh fun _ => .bind .push fun _ => .pure⟩

instance : TotalSpec (pushStmt op) :=
  ⟨.push⟩

end Statements

section Operations

-- A value of the operand size, as the interpreter holds it.
abbrev word {w : Nat} (x : BitVec w) : Value :=
  .scalar (x.setWidth 64)

variable {Γ : Facts} {cpu : Cpu} {size : OpSize} {lhs rhs : Ref} {a b : U64}
  {x y z : BitVec size.bitWidth}

theorem constant_computes (value : U64) : Computes Γ cpu (pushRef (.constant value size))
    (word (value.setWidth size.bitWidth)) :=
  pushRef_yields fun n s _ => by rw [evalOp, mask_eq_setWidth]

theorem constantNat_computes (n : Nat) :
    Computes Γ cpu (pushRef (.constant (.ofNat 64 n) size)) (word (BitVec.ofNat size.bitWidth n)) :=
  (constant_computes _).of_eq (by rw [setWidth_ofNat_of_le size.bitWidth_le])

theorem loadReg_computes (reg : Gpr) : Computes Γ cpu (pushRef (.loadReg reg size))
    (word (X86.readGpr cpu.regs reg size)) :=
  pushRef_yields fun n s _ => by rw [evalOp, mask_eq_setWidth]; rfl

theorem loadCarry_computes : Computes Γ cpu (pushRef .loadCarry) (.scalar (cpu.regs.cf &&& 1)) :=
  pushRef_yields fun _ _ _ => rfl

theorem loadRflags_computes :
    Computes Γ cpu (pushRef .loadRflags) (.scalar (cpu.regs.rflags ||| 2)) :=
  pushRef_yields fun _ _ _ => rfl

theorem binOp_computes_at (op : BinOpKind)
    (h : op.apply (a.setWidth size.bitWidth) (b.setWidth size.bitWidth) = some z)
    [hl : Lookup Γ lhs (.scalar a)] [hr : Lookup Γ rhs (.scalar b)] :
    Computes Γ cpu (pushRef (.binOp op lhs rhs size)) (word z) :=
  pushRef_yields fun n s hk => by
    simp only [evalOp, hk.vals hl, hk.vals hr, evalBinop_eq, h, map_some]

theorem binOp_computes (op : BinOpKind) (h : op.apply x y = some z)
    [hl : Lookup Γ lhs (word x)] [hr : Lookup Γ rhs (word y)] :
    Computes Γ cpu (pushRef (.binOp op lhs rhs size)) (word z) :=
  binOp_computes_at op (by rw [setWidth_word, setWidth_word, h])

theorem compare_yields (cc : CondCode)
    [hl : Lookup Γ lhs (.scalar a)] [hr : Lookup Γ rhs (.scalar b)] :
    Yields Γ cpu (pushRef (.compare cc lhs rhs size))
      (.scalar (bit (cc.compare (a.setWidth size.bitWidth) (b.setWidth size.bitWidth))))
      (cpu.writeFlags (subFlags a b size)) :=
  pushRef_yields fun n s hk => by
    simp only [evalOp, if_true, hk.vals hl, hk.vals hr, evalCc_subFlags]

theorem cmpFlags_updates
    [hl : Lookup Γ lhs (.scalar a)] [hr : Lookup Γ rhs (.scalar b)] :
    Updates Γ cpu (pushRef (.cmpFlags lhs rhs size)) (cpu.writeFlags (subFlags a b size)) :=
  pushRef_updates .none fun n s hk => by simp only [evalOp, hk.vals hl, hk.vals hr]

theorem storeReg_updates (reg : Gpr) [h : Lookup Γ value (.scalar a)] :
    Updates Γ cpu (pushStmt (.storeReg reg value size))
      { cpu with regs := storeReg cpu.regs reg a size } :=
  pushStmt_updates .none fun n s hk => by simp only [evalOp, hk.vals h]

theorem storeCarry_updates [h : Lookup Γ value (.scalar a)] :
    Updates Γ cpu (pushStmt (.storeCarry value)) (cpu.persist (storeCarry cpu.regs a)) :=
  pushStmt_updates .none fun n s hk => by simp only [evalOp, hk.vals h]

theorem storeRflags_updates [h : Lookup Γ value (.scalar a)] :
    Updates Γ cpu (pushStmt (.storeRflags value)) (cpu.persist (storeRflags cpu.regs a)) :=
  pushStmt_updates .none fun n s hk => by simp only [evalOp, hk.vals h]

theorem select_yields (cc : CondCode)
    [hl : Lookup Γ lhs (.scalar a)] [hr : Lookup Γ rhs (.scalar b)] :
    Yields Γ cpu (pushRef (.select cc lhs rhs size))
      (.scalar (mask (if evalCc cc cpu.restoreFlags.flags then a else b) size)) cpu.restoreFlags :=
  pushRef_yields fun n s hk => by simp only [evalOp, hk.vals hl, hk.vals hr]

theorem select_computes (cc : CondCode) (hn : cpu.nzcvLive = true) (hl : Lookup Γ lhs (word x))
    (hr : Lookup Γ rhs (word y)) : Computes Γ cpu (pushRef (.select cc lhs rhs size))
      (word (if evalCc cc cpu.flags then x else y)) := by
  have hc : cpu.restoreFlags = cpu := if_pos hn
  refine (select_yields cc).mono fun r Δ c ⟨hΔ, h⟩ => ?_
  rw [hc] at hΔ h
  refine ⟨hΔ.trans ?_, h⟩
  split <;> rw [mask_word]

theorem selectCompared_evaluates {α β : Type} (cc : CondCode) {m : Emit α} {f : Ref → Emit β}
    {Q : β → Facts → Cpu → Prop} {v w : BitVec size.bitWidth}
    (hm : Updates Γ cpu m (cpu.writeFlags (subFlags (v.setWidth 64) (w.setWidth 64) size)))
    (hl : Lookup Γ lhs (word x)) (hr : Lookup Γ rhs (word y))
    (hf : ∀ r c, c.regs = cpu.regs → c.nzcvLive = true → evalCc cc c.flags = cc.compare v w →
      Evaluates ((r, word (if cc.compare v w then x else y)) :: Γ) c (f r) Q) :
    Evaluates Γ cpu (do
      let _ ← m
      let r ← pushRef (.select cc lhs rhs size)
      f r) Q := by
  have hc : evalCc cc (cpu.writeFlags (subFlags (v.setWidth 64) (w.setWidth 64) size)).flags =
      cc.compare v w := by
    refine (evalCc_subFlags ..).trans ?_
    rw [setWidth_word, setWidth_word]
  refine hm.bind fun _ => (select_computes cc rfl hl hr).bind fun r => ?_
  rw [hc]
  exact hf r _ rfl rfl hc

theorem binOp64_computes (op : BinOpKind) (h : op.apply a b = some c)
    [hl : Lookup Γ lhs (.scalar a)] [hr : Lookup Γ rhs (.scalar b)] :
    Computes Γ cpu (pushRef (.binOp op lhs rhs .i64)) (.scalar c) :=
  pushRef_yields fun n s hk => by
    have he : evalBinop op a b .i64 = some c := by
      rw [evalBinop_eq]
      change Option.map _ (op.apply (a.setWidth 64) (b.setWidth 64)) = _
      rw [setWidth_eq, setWidth_eq, h]
      exact congrArg some (setWidth_eq c)
    simp only [evalOp, hk.vals hl, hk.vals hr, he]

theorem compare64_yields (cc : CondCode)
    [hl : Lookup Γ lhs (.scalar a)] [hr : Lookup Γ rhs (.scalar b)] :
    Yields Γ cpu (pushRef (.compare cc lhs rhs .i64)) (.scalar (bit (cc.compare a b)))
      (cpu.writeFlags (subFlags a b .i64)) :=
  pushRef_yields fun n s hk => by
    have he : evalCc cc (subFlags a b .i64) = cc.compare a b := by
      rw [evalCc_subFlags]
      exact congrArg₂ _ (setWidth_eq a) (setWidth_eq b)
    simp only [evalOp, if_true, hk.vals hl, hk.vals hr, he]

theorem constant64_computes (value : U64) :
    Computes Γ cpu (pushRef (.constant value .i64)) (.scalar value) :=
  pushRef_yields fun _ _ _ => rfl

theorem loadReg64_computes (reg : Gpr) :
    Computes Γ cpu (pushRef (.loadReg reg .i64)) (.scalar (cpu.regs.gpr reg)) :=
  pushRef_yields fun _ _ _ => rfl

theorem extend_computes (toSize : OpSize) (isSigned : Bool)
    [h : Lookup Γ lhs (word x)] :
    Computes Γ cpu (pushRef (.extend lhs size toSize isSigned))
      (.scalar (mask (if isSigned then x.signExtend 64 else x.setWidth 64) toSize)) :=
  pushRef_yields fun n s hk => by
    simp only [evalOp, hk.vals h, signExtendToU64_eq, setWidth_word, mask_word]

theorem zeroExtend_computes (toSize : OpSize)
    [h : Lookup Γ lhs (word x)] :
    Computes Γ cpu (pushRef (.extend lhs size toSize false)) (word (x.setWidth toSize.bitWidth)) :=
  (extend_computes toSize false).of_eq <| by
    rw [if_neg Bool.false_ne_true, mask_eq_setWidth,
      setWidth_setWidth_of_le x toSize.bitWidth_le]

theorem truncate_computes
    [h : Lookup Γ lhs (.scalar a)] :
    Computes Γ cpu (pushRef (.truncate lhs size)) (word (a.setWidth size.bitWidth)) :=
  pushRef_yields fun n s hk => by simp only [evalOp, hk.vals h, mask_eq_setWidth]

theorem trapIf_stops (kind : TrapKind) (ha : a ≠ 0)
    [h : Lookup Γ lhs (.scalar a)] :
    Stops Γ cpu (pushStmt (.trapIf lhs kind)) (some (.trap kind, cpu.regs)) :=
  pushStmt_stops fun n s hk => by simp only [evalOp, hk.vals h, if_pos ha, ended]

theorem trapIf_updates (kind : TrapKind)
    [h : Lookup Γ lhs (.scalar 0)] :
    Updates Γ cpu (pushStmt (.trapIf lhs kind)) cpu :=
  pushStmt_updates .none fun n s hk => by
    simp only [evalOp, hk.vals h, ne_eq, not_true, if_false]

end Operations

section Blocks

variable {α : Type} {m : Emit α} {regs : GuestRegs} {Q : α → Facts → Cpu → Prop}
  {o : Option (BlockOutcome × GuestRegs)}

theorem Evaluates.block (h : Evaluates [] (.entry regs) m Q) :
    ∃ a stmts Δ cpu, m [] = .ok (a, stmts) ∧
      interpretBlock stmts regs = some (.fallthrough, cpu.regs) ∧ Q a Δ cpu := by
  have ⟨a, stmts, s, hm, he, Δ, _, hq⟩ := h 0 (.entry regs) .nil rfl [] rfl
  refine ⟨a, stmts, Δ, s.cpu, hm, ?_, hq⟩
  rw [Prisma.interpretBlock, run, he]
  rfl

theorem Stops.block (h : Stops [] (.entry regs) m o) :
    ∃ a stmts, m [] = .ok (a, stmts) ∧ interpretBlock stmts regs = o := by
  have ⟨a, stmts, hm, he⟩ := h 0 (.entry regs) .nil rfl [] rfl
  refine ⟨a, stmts, hm, ?_⟩
  rw [Prisma.interpretBlock, run, he]
  cases o <;> rfl

end Blocks

section Instructions

variable {bytes : List U8} {offset : Nat} {insn : X86.Instruction} {pc : U64} {regs : GuestRegs}
  {Q : Nat → Facts → Cpu → Prop} {o : Option (BlockOutcome × GuestRegs)}

abbrev decodeInstruction (insn : X86.Instruction) (bytes : List U8) (offset : Nat) (pc : U64) :
    Emit Nat :=
  decodeOneByteOpcode insn.prefixes insn.opcode bytes insn.cursor
    (pc + BitVec.ofNat 64 (insn.cursor - offset))

variable (hi : X86.instructionAt bytes offset = some insn)

include hi

theorem decodeOneAt_of_instructionAt
    (h : decodeInstruction insn bytes offset pc [] = .ok (consumed, stmts)) :
    decodeOneAt bytes offset pc =
      .ok { stmts, bytesConsumed := insn.cursor - offset + consumed } := by
  have ⟨hp, ho, hv⟩ := instructionAt_eq_some hi
  apply decodeOneAt_of_decodeOpcode hp ho
  rw [decodeOpcode, hv]
  exact h

theorem decodeInstruction_of_decodeOneAt (h : decodeOneAt bytes offset pc = .ok d) :
    ∃ consumed, decodeInstruction insn bytes offset pc [] = .ok (consumed, d.stmts) := by
  have ⟨hp, ho, hv⟩ := instructionAt_eq_some hi
  have ⟨opcode, consumed, ho', h, _⟩ := decodeOneAt_eq_ok h
  rw [hp] at ho' h
  cases ho.symm.trans ho'
  rw [decodeOpcode, hv] at h
  exact ⟨consumed, h⟩

theorem Evaluates.instruction
    (h : Evaluates [] (.entry regs) (decodeInstruction insn bytes offset pc) Q) :
    ∃ d consumed Δ cpu, decodeOneAt bytes offset pc = .ok d ∧
      interpretBlock d.stmts regs = some (.fallthrough, cpu.regs) ∧ Q consumed Δ cpu := by
  have ⟨consumed, stmts, Δ, cpu, hm, hr, hq⟩ := h.block
  exact ⟨_, consumed, Δ, cpu, decodeOneAt_of_instructionAt hi hm, hr, hq⟩

theorem Leaves.instruction
    (h : Leaves [] (.entry regs) (decodeInstruction insn bytes offset pc) regs') :
    ∃ d, decodeOneAt bytes offset pc = .ok d ∧
      interpretBlock d.stmts regs = some (.fallthrough, regs') := by
  have ⟨d, _, _, cpu, hd, hrun, _, hregs⟩ := Evaluates.instruction hi h
  exact ⟨d, hd, hregs ▸ hrun⟩

theorem Stops.instruction (h : Stops [] (.entry regs) (decodeInstruction insn bytes offset pc) o) :
    ∃ d, decodeOneAt bytes offset pc = .ok d ∧ interpretBlock d.stmts regs = o := by
  have ⟨consumed, stmts, hm, hr⟩ := h.block
  exact ⟨_, decodeOneAt_of_instructionAt hi hm, hr⟩

end Instructions

end Prisma.Decoder
