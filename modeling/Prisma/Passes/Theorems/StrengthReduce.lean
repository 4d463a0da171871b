import Prisma.Lib.Tally
import Prisma.Passes.StrengthReduce
import Prisma.Passes.Theorems.Consts
import Prisma.Interp.Theorems.Arith

namespace Prisma.StrengthReduce

open Machine List

section Arithmetic

variable {a b v k : U64} {size : OpSize}

theorem toNat_of_log2Pow2 (h : log2Pow2 v = some k) : v.toNat = 2 ^ k.toNat ∧ k.toNat < 64 := by
  have ⟨hnot, hk⟩ := Option.ite_none_left_eq_some.mp h
  have ⟨hne, hand⟩ := not_or.mp hnot
  have hand := not_not.mp hand
  cases hk
  have hne' : v.toNat ≠ 0 := fun h => hne (BitVec.eq_of_toNat_eq h)
  have hpow : v.toNat.isPowerOfTwo := by
    refine (Nat.and_sub_one_eq_zero_iff_isPowerOfTwo hne').mp ?_
    have hone : (v - 1).toNat = v.toNat - 1 :=
      BitVec.toNat_sub_of_le (BitVec.le_def.mpr (Nat.one_le_iff_ne_zero.mpr hne'))
    rw [← hone, ← BitVec.toNat_and, hand]
    rfl
  have ⟨j, hj⟩ := hpow
  have hbit := BitVec.getLsbD_true_ctz_of_ne_zero hne
  have hctz : j = v.ctz.toNat := by
    rw [BitVec.getLsbD, hj, Nat.testBit_two_pow] at hbit
    exact of_decide_eq_true hbit
  refine ⟨hctz ▸ hj, ?_⟩
  rw [← hctz]
  refine (Nat.pow_lt_pow_iff_right (by decide : 1 < 2)).mp ?_
  rw [← hj]
  exact v.isLt

theorem evalBinop_shl_of_log2Pow2 (h : log2Pow2 v = some k) :
    evalBinop .shl a (mask k size) size = evalBinop .mul a v size := by
  have ⟨hv, hk⟩ := toNat_of_log2Pow2 h
  have hlt : k.toNat < 2 ^ size.bitWidth := lt_of_lt_of_le hk (by cases size <;> decide)
  have heq : a.setWidth size.bitWidth <<< ((k.setWidth size.bitWidth).toNat % 64) =
      a.setWidth size.bitWidth * v.setWidth size.bitWidth := by
    apply BitVec.eq_of_toNat_eq
    rw [BitVec.toNat_setWidth, Nat.mod_eq_of_lt hlt, Nat.mod_eq_of_lt hk, BitVec.toNat_shiftLeft,
      BitVec.toNat_mul, BitVec.toNat_setWidth size.bitWidth v, hv, Nat.shiftLeft_eq,
      Nat.mul_mod_mod]
  rw [evalBinop_eq, evalBinop_eq, setWidth_mask, BinOpKind.apply, BinOpKind.apply, heq]

theorem evalBinop_mul_comm : evalBinop .mul a b size = evalBinop .mul b a size := by
  rw [evalBinop_eq, evalBinop_eq]
  simp [BinOpKind.apply, BitVec.mul_comm]

end Arithmetic

-- The constant that the block binds to a ref.
def definedConst (stmts : List Stmt) : Consts := fun r =>
  match stmts.find? (·.result = some r) with
  | some ⟨_, .constant value size⟩ => some (value &&& size.mask)
  | _ => none

-- A product with a result one of whose operands the block defines as a power of two.
def isProduct (stmts : List Stmt) (stmt : Stmt) : Bool :=
  match stmt.op with
  | .binOp .mul lhs rhs _ => stmt.result.isSome && (shiftFor (definedConst stmts) lhs rhs).isSome
  | _ => false

def products (stmts rest : List Stmt) : Nat :=
  rest.countP (isProduct stmts)

variable {whole rest stmts : List Stmt} {stmt : Stmt} {r : Reducer} {defined : List Ref} {q : Ref}
  {bound : Nat} {s t : State}

section Reduce

-- What one iteration does.
inductive Reduces (r : Reducer) (stmt : Stmt) : Reducer × List Stmt → Prop
  | same (h : ∀ d lhs rhs size, stmt.result = some d → stmt.op = .binOp .mul lhs rhs size →
      shiftFor r.consts lhs rhs = none)
    (hc : ∀ d value size, stmt.result = some d → stmt.op ≠ .constant value size) :
    Reduces r stmt (r, [stmt])
  | learn {d value size} (hd : stmt.result = some d) (hop : stmt.op = .constant value size)
    (hdefs : stmt.defs = [d]) :
    Reduces r stmt ({ r with consts := Function.update r.consts d (some (value &&& size.mask)) },
      [stmt])
  | shift {d lhs rhs size k operand} (hd : stmt.result = some d)
    (hop : stmt.op = .binOp .mul lhs rhs size) (hdefs : stmt.defs = [d])
    (hs : shiftFor r.consts lhs rhs = some (k, operand)) :
    Reduces r stmt (⟨Function.update r.consts r.nextRef (some k), r.nextRef + 1⟩,
      [⟨some r.nextRef, .constant k size⟩, ⟨some d, .binOp .shl operand r.nextRef size⟩])

theorem reduces (r : Reducer) (stmt : Stmt) : Reduces r stmt (reduceStmt r stmt) := by
  unfold reduceStmt
  split
  case h_1 hd => exact .same (by simp [hd]) (by simp [hd])
  case h_2 d hd =>
    split
    case h_1 value size hop => exact .learn hd hop (by simp [Stmt.defs, hd, hop, Op.secondResult])
    case h_2 lhs rhs size hop =>
      split
      case h_1 k operand hs =>
        exact .shift hd hop (by simp [Stmt.defs, hd, hop, Op.secondResult]) hs
      case h_2 hs =>
        refine .same (fun d' lhs' rhs' size' _ hop' => ?_) (by simp [hop])
        cases hop.symm.trans hop'
        exact hs
    case h_3 hconst hmul => exact .same (by simp_all) (by simp_all)

theorem reduceStmt_snd_cases : (reduceStmt r stmt).2 = [stmt] ∨ ∃ d lhs rhs size k operand,
    stmt.result = some d ∧ stmt.op = .binOp .mul lhs rhs size ∧
    shiftFor r.consts lhs rhs = some (k, operand) ∧
    r.nextRef < (reduceStmt r stmt).1.nextRef ∧ (reduceStmt r stmt).2 =
      [⟨some r.nextRef, .constant k size⟩, ⟨some d, .binOp .shl operand r.nextRef size⟩] := by
  generalize hr : reduceStmt r stmt = res
  cases hr ▸ reduces r stmt with
  | same | learn => exact .inl rfl
  | shift hd hop _ hs => exact .inr ⟨_, _, _, _, _, _, hd, hop, hs, Nat.lt_succ_self _, rfl⟩

theorem nextRef_le_reduceStmt : r.nextRef ≤ (reduceStmt r stmt).1.nextRef := by
  generalize hr : reduceStmt r stmt = res
  cases hr ▸ reduces r stmt with
  | same | learn => exact le_refl _
  | shift => exact Nat.le_succ _

theorem nextRef_le_expand : r.nextRef ≤ (expand reduceStmt r rest).1.nextRef := by
  induction rest generalizing r with
  | nil => exact le_refl _
  | cons stmt rest hi => exact nextRef_le_reduceStmt.trans hi

end Reduce

section Tracks

theorem definedConst_cons_of_ne (h : stmt.result ≠ some q) :
    definedConst (stmt :: rest) q = definedConst rest q := by
  simp [definedConst, h]

theorem definedConst_cons_constant (h : stmt.result = some q) (hop : stmt.op = .constant value size) :
    definedConst (stmt :: rest) q = some (value &&& size.mask) := by
  obtain ⟨result, op⟩ := stmt
  cases h
  cases hop
  simp [definedConst]

theorem definedConst_cons_eq_none (h : stmt.result = some q)
    (hop : ∀ value size, stmt.op ≠ .constant value size) : definedConst (stmt :: rest) q = none := by
  have hfind : (stmt :: rest).find? (·.result = some q) = some stmt := by simp [h]
  rw [definedConst, hfind]
  split
  case h_1 value size heq =>
    cases heq
    exact absurd rfl (hop value size)
  case h_2 => rfl

theorem definedConst_eq_none (h : q ∉ rest.flatMap Stmt.defs) : definedConst rest q = none := by
  have hfind : rest.find? (·.result = some q) = none := by
    refine List.find?_eq_none.mpr fun stmt hmem hresult => h ?_
    exact mem_flatMap.mpr ⟨stmt, hmem, Stmt.mem_defs_of_result (of_decide_eq_true hresult)⟩
  rw [definedConst, hfind]

-- The table of the pass is right about the refs of the block, and no ref that is still to be minted
-- is among them.
structure Tracks (whole : List Stmt) (bound : Nat) (r : Reducer) (defined : List Ref)
    (rest : List Stmt) : Prop where
  ssa : SsaFrom defined rest
  ahead : ∀ q ∈ rest.flatMap Stmt.defs, definedConst whole q = definedConst rest q
  consts : ∀ q ∈ defined, r.consts q = definedConst whole q
  later : ∀ q ∈ rest.flatMap Stmt.defs, r.consts q = none
  fresh : ∀ q, r.nextRef ≤ q → q < bound → q ∉ defined ∧ q ∉ rest.flatMap Stmt.defs
  bounded : r.nextRef + products whole rest ≤ bound ∨
    (expand reduceStmt r rest).1.nextRef ≤ bound

namespace Tracks

theorem shiftFor_eq (h : Tracks whole bound r defined (stmt :: rest))
    (hop : stmt.op = .binOp .mul lhs rhs size) :
    shiftFor r.consts lhs rhs = shiftFor (definedConst whole) lhs rhs := by
  have hl : lhs ∈ defined := h.ssa.operands_mem (by simp [hop, Op.operandRefs])
  have hr : rhs ∈ defined := h.ssa.operands_mem (by simp [hop, Op.operandRefs])
  rw [shiftFor, shiftFor, h.consts lhs hl, h.consts rhs hr]

theorem nextRef_eq (h : Tracks whole bound r defined (stmt :: rest)) :
    (reduceStmt r stmt).1.nextRef = r.nextRef + if isProduct whole stmt then 1 else 0 := by
  generalize hr : reduceStmt r stmt = res
  cases hr ▸ reduces r stmt with
  | same hmul =>
    have hnot : isProduct whole stmt = false := by
      unfold isProduct
      split
      case h_1 lhs rhs size hop =>
        cases hd : stmt.result with
        | none => rfl
        | some d => simp [← h.shiftFor_eq hop, hmul d lhs rhs size hd hop]
      case h_2 => rfl
    simp [hnot]
  | learn hd hop => simp [isProduct, hop]
  | shift hd hop _ hs => simp [isProduct, hop, hd, ← h.shiftFor_eq hop, hs]

theorem products_cons : products whole (stmt :: rest) =
    (if isProduct whole stmt then 1 else 0) + products whole rest :=
  countP_cons.trans (Nat.add_comm ..)

theorem nextRef_lt (h : Tracks whole bound r defined (stmt :: rest))
    (hlt : r.nextRef < (reduceStmt r stmt).1.nextRef) : r.nextRef < bound := by
  rcases h.bounded with hle | hle
  · rw [products_cons, ← Nat.add_assoc, ← h.nextRef_eq] at hle
    exact lt_of_lt_of_le (Nat.lt_add_right _ hlt) hle
  · exact lt_of_lt_of_le hlt (nextRef_le_expand.trans hle)

theorem defs_not_ahead (h : Tracks whole bound r defined (stmt :: rest)) (hq : q ∈ stmt.defs) :
    q ∉ rest.flatMap Stmt.defs :=
  h.ssa.tail.not_mem_defs (mem_append_left _ hq)

theorem mem_defs_head (hq : q ∈ stmt.defs) : q ∈ (stmt :: rest).flatMap Stmt.defs := by
  rw [flatMap_cons]
  exact mem_append_left _ hq

theorem mem_defs_cons (hq : q ∈ rest.flatMap Stmt.defs) : q ∈ (stmt :: rest).flatMap Stmt.defs := by
  rw [flatMap_cons]
  exact mem_append_right _ hq

section Step

variable (h : Tracks whole bound r defined (stmt :: rest))

include h

theorem definedConst_defs (hq : q ∈ stmt.defs)
    (hop : ∀ value size, stmt.result = some q → stmt.op ≠ .constant value size) :
    definedConst whole q = none := by
  rw [h.ahead q (mem_defs_head hq)]
  by_cases hd : stmt.result = some q
  · exact definedConst_cons_eq_none hd fun value size => hop value size hd
  · rw [definedConst_cons_of_ne hd]
    exact definedConst_eq_none (h.defs_not_ahead hq)

theorem of_update {r' : Reducer}
    (hr' : r'.consts = Function.update r.consts d (some v)) (hd : d ∉ defined)
    (hahead : d ∉ rest.flatMap Stmt.defs)
    (hdefs : ∀ q ∈ stmt.defs, r'.consts q = definedConst whole q) :
    (∀ q ∈ stmt.defs ++ defined, r'.consts q = definedConst whole q) ∧
      ∀ q ∈ rest.flatMap Stmt.defs, r'.consts q = none := by
  constructor
  · intro q hq
    rcases mem_append.mp hq with hq | hq
    · exact hdefs q hq
    · rw [hr', Function.update_of_ne (ne_of_mem_of_not_mem hq hd), h.consts q hq]
  · intro q hq
    rw [hr', Function.update_of_ne (ne_of_mem_of_not_mem hq hahead), h.later q (mem_defs_cons hq)]

theorem step_consts :
    (∀ q ∈ stmt.defs ++ defined, (reduceStmt r stmt).1.consts q = definedConst whole q) ∧
      ∀ q ∈ rest.flatMap Stmt.defs, (reduceStmt r stmt).1.consts q = none := by
  have hlt := h.nextRef_lt
  have hnone (q : Ref) (hq : q ∈ stmt.defs) : r.consts q = none := h.later q (mem_defs_head hq)
  generalize hr : reduceStmt r stmt = res at hlt ⊢
  cases hr ▸ reduces r stmt with
  | same _ hconst =>
    constructor
    · intro q hq
      rcases mem_append.mp hq with hq | hq
      · rw [hnone q hq, h.definedConst_defs hq fun value size hd => hconst q value size hd]
      · exact h.consts q hq
    · exact fun q hq => h.later q (mem_defs_cons hq)
  | @learn d value size hd hop hdefs =>
    have hmem : d ∈ stmt.defs := hdefs ▸ mem_singleton_self d
    refine h.of_update rfl (h.ssa.defs_not_mem hmem) (h.defs_not_ahead hmem) fun q hq => ?_
    rw [hdefs] at hq
    cases mem_singleton.mp hq
    rw [h.ahead d (mem_defs_head hmem), definedConst_cons_constant hd hop]
    exact Function.update_self ..
  | shift _ hop =>
    have hfresh := h.fresh r.nextRef (le_refl _) (hlt (Nat.lt_succ_self _))
    have hne (q : Ref) (hq : q ∈ stmt.defs) : q ≠ r.nextRef := by
      rintro rfl
      exact hfresh.right (mem_defs_head hq)
    refine h.of_update rfl hfresh.left (fun hq => hfresh.right (mem_defs_cons hq)) fun q hq => ?_
    dsimp only
    rw [Function.update_of_ne (hne q hq), hnone q hq, h.definedConst_defs hq (by simp [hop])]

theorem step :
    Tracks whole bound (reduceStmt r stmt).1 (stmt.defs ++ defined) rest where
  ssa := h.ssa.tail
  ahead q hq := by
    have hne : stmt.result ≠ some q := fun hd =>
      h.defs_not_ahead (Stmt.mem_defs_of_result hd) hq
    rw [h.ahead q (mem_defs_cons hq), definedConst_cons_of_ne hne]
  consts := h.step_consts.left
  later := h.step_consts.right
  fresh q hle hlt := by
    have ⟨hdefined, hdefs⟩ := h.fresh q (nextRef_le_reduceStmt.trans hle) hlt
    rw [flatMap_cons, mem_append, not_or] at hdefs
    exact ⟨fun hq => (mem_append.mp hq).elim hdefs.left hdefined, hdefs.right⟩
  bounded := by
    refine h.bounded.imp_left fun hle => ?_
    rwa [products_cons, ← Nat.add_assoc, ← h.nextRef_eq] at hle

end Step

theorem nextRef_expand (h : Tracks whole bound r defined rest) :
    (expand reduceStmt r rest).1.nextRef = r.nextRef + products whole rest := by
  induction rest generalizing r defined with
  | nil => rfl
  | cons stmt rest hi => rw [expand_cons, hi h.step, h.nextRef_eq, products_cons, Nat.add_assoc]

end Tracks

theorem shiftFor_eq_some (h : shiftFor consts lhs rhs = some (k, operand)) :
    (operand = lhs ∧ (consts rhs).bind log2Pow2 = some k) ∨
      (operand = rhs ∧ (consts lhs).bind log2Pow2 = some k) := by
  unfold shiftFor at h
  cases hr : (consts rhs).bind log2Pow2 with
  | some k' =>
    rw [hr] at h
    cases h
    exact .inl ⟨rfl, rfl⟩
  | none =>
    cases hl : (consts lhs).bind log2Pow2 with
    | some k' =>
      rw [hr, hl] at h
      cases h
      exact .inr ⟨rfl, rfl⟩
    | none =>
      rw [hr, hl] at h
      contradiction

end Tracks

section Ssa

variable {made : List Ref}

theorem Tracks.ssaFrom_expand (h : Tracks whole bound r defined rest)
    (hsub : ∀ q ∈ defined, q ∈ made)
    (hmade : ∀ q ∈ made, q ∉ rest.flatMap Stmt.defs ∧ (q ∈ defined ∨ q < r.nextRef)) :
    SsaFrom made (expand reduceStmt r rest).2 := by
  induction rest generalizing r defined made with
  | nil => exact trivial
  | cons stmt rest hi =>
    have hlt := h.nextRef_lt
    have hle : r.nextRef ≤ (reduceStmt r stmt).1.nextRef := nextRef_le_reduceStmt
    have hi := @hi (reduceStmt r stmt).1 (stmt.defs ++ defined)
    have hdefs (q : Ref) (hq : q ∈ stmt.defs) : q ∉ made := fun hm =>
      (hmade q hm).left (Tracks.mem_defs_head hq)
    have hstep := h.step
    rw [expand_cons]
    generalize hr : reduceStmt r stmt = res at hlt hle hi hstep ⊢
    have hkept (made' : List Ref) (hsub' : ∀ q ∈ stmt.defs ++ defined, q ∈ made')
        (hnew : ∀ q ∈ made', q ∈ stmt.defs ++ made ∨
          (q ∉ rest.flatMap Stmt.defs ∧ q < res.1.nextRef)) :
        SsaFrom made' (expand reduceStmt res.1 rest).2 := by
      refine hi hstep hsub' fun q hq => ?_
      rcases hnew q hq with hq | ⟨hahead, hlt⟩
      · rcases mem_append.mp hq with hq | hq
        · exact ⟨h.defs_not_ahead hq, .inl (mem_append_left _ hq)⟩
        · have ⟨hahead, hbefore⟩ := hmade q hq
          refine ⟨fun hm => hahead (Tracks.mem_defs_cons hm), ?_⟩
          exact hbefore.imp (mem_append_right _) fun hlt => lt_of_lt_of_le hlt hle
      · exact ⟨hahead, .inr hlt⟩
    have hsame : SsaFrom made ([stmt] ++ (expand reduceStmt res.1 rest).2) := by
      refine ⟨fun q hq => hsub q (h.ssa.operands_mem hq), ⟨h.ssa.right.left.left, hdefs⟩, ?_⟩
      refine hkept _ (fun q hq => ?_) fun q hq => .inl hq
      exact mem_append.mpr ((mem_append.mp hq).imp_right (hsub q))
    cases hr ▸ reduces r stmt with
    | same | learn => exact hsame
    | @shift d lhs rhs size k operand hd hop hd' hs =>
      have hfresh := h.fresh r.nextRef (le_refl _) (hlt (Nat.lt_succ_self _))
      have hdmem : d ∈ stmt.defs := hd' ▸ mem_singleton_self d
      have hdne : d ≠ r.nextRef := by
        rintro rfl
        exact hfresh.right (Tracks.mem_defs_head hdmem)
      have hnext : r.nextRef ∉ made := fun hm =>
        (hmade _ hm).right.elim hfresh.left (lt_irrefl _)
      have hoperand : operand ∈ defined := by
        rcases shiftFor_eq_some hs with ⟨rfl, _⟩ | ⟨rfl, _⟩
        all_goals exact h.ssa.operands_mem (by simp [hop, Op.operandRefs])
      refine ⟨nofun, ⟨nodup_singleton _, ?_⟩, ?_, ⟨nodup_singleton _, ?_⟩, ?_⟩
      · intro q hq
        cases mem_singleton.mp hq
        exact hnext
      · intro q hq
        have hq : q = operand ∨ q = r.nextRef := by simpa [Op.operandRefs] using hq
        rcases hq with rfl | rfl
        · exact mem_append_right _ (hsub _ hoperand)
        · exact mem_append_left _ (mem_singleton_self _)
      · intro q hq
        cases mem_singleton.mp hq
        exact not_mem_cons_of_ne_of_not_mem hdne (hdefs d hdmem)
      · refine hkept _ (fun q hq => ?_) fun q hq => ?_
        · rcases mem_append.mp hq with hq | hq
          · exact mem_append_left _ (show q ∈ [d] from hd' ▸ hq)
          · exact mem_append_right _ (mem_append_right _ (hsub q hq))
        · rw [hd']
          rcases mem_append.mp hq with hq | hq
          · exact .inl (mem_append_left _ hq)
          · rcases mem_append.mp hq with hq | hq
            · cases mem_singleton.mp hq
              exact .inr ⟨fun hm => hfresh.right (Tracks.mem_defs_cons hm), Nat.lt_succ_self _⟩
            · exact .inl (mem_append_right _ hq)

theorem mem_defs_reduceStmt : (∀ q ∈ stmt.defs, q ∈ (reduceStmt r stmt).2.flatMap Stmt.defs) ∧
    (∀ q, r.nextRef ≤ q → q < (reduceStmt r stmt).1.nextRef →
      q ∈ (reduceStmt r stmt).2.flatMap Stmt.defs) := by
  generalize hr : reduceStmt r stmt = res
  cases hr ▸ reduces r stmt with
  | same | learn =>
    exact ⟨fun q hq => by simpa using hq, fun q hle hlt => absurd hlt (not_lt.mpr hle)⟩
  | shift _ _ hd' =>
    refine ⟨fun q hq => ?_, fun q hle hlt => ?_⟩
    · rw [hd'] at hq
      cases mem_singleton.mp hq
      exact .tail _ (.head _)
    · cases Nat.le_antisymm (Nat.le_of_lt_succ hlt) hle
      exact .head _

theorem mem_defs_expand (h : q ∈ rest.flatMap Stmt.defs) :
    q ∈ (expand reduceStmt r rest).2.flatMap Stmt.defs := by
  induction rest generalizing r with
  | nil => exact h
  | cons stmt rest hi =>
    rw [expand_cons, flatMap_append, mem_append]
    rw [flatMap_cons, mem_append] at h
    exact h.imp (mem_defs_reduceStmt.left q) hi

theorem minted_mem_expand (hle : r.nextRef ≤ q) (hlt : q < (expand reduceStmt r rest).1.nextRef) :
    q ∈ (expand reduceStmt r rest).2.flatMap Stmt.defs := by
  induction rest generalizing r with
  | nil => exact absurd hlt (not_lt.mpr hle)
  | cons stmt rest hi =>
    rw [expand_cons, flatMap_append, mem_append]
    by_cases hq : q < (reduceStmt r stmt).1.nextRef
    · exact .inl (mem_defs_reduceStmt.right q hle hq)
    · exact .inr (hi (not_lt.mp hq) hlt)

theorem not_mem_of_ssaFrom_expand (h : SsaFrom made (expand reduceStmt r rest).2)
    (hle : r.nextRef ≤ q) (hlt : q < (expand reduceStmt r rest).1.nextRef) :
    q ∉ rest.flatMap Stmt.defs := by
  induction rest generalizing r made with
  | nil => exact not_mem_nil
  | cons stmt rest hi =>
    rw [flatMap_cons, mem_append, not_or]
    rw [expand_cons] at h hlt
    generalize hr : reduceStmt r stmt = res at h hlt
    cases hr ▸ reduces r stmt with
    | same | learn =>
      refine ⟨fun hq => ?_, hi h.tail hle hlt⟩
      exact h.tail.not_mem_defs (mem_append_left _ hq) (minted_mem_expand hle hlt)
    | shift _ _ hd' =>
      rw [hd', mem_singleton]
      by_cases hq : q = r.nextRef
      · subst hq
        refine ⟨?_, fun hm => ?_⟩
        · rintro rfl
          exact h.tail.defs_not_mem (mem_singleton_self _) (.head _)
        · exact h.tail.tail.not_mem_defs (.tail _ (.head _)) (mem_defs_expand hm)
      · have hle' : r.nextRef + 1 ≤ q := lt_of_le_of_ne hle (Ne.symm hq)
        refine ⟨?_, hi h.tail.tail hle' hlt⟩
        rintro rfl
        exact h.tail.tail.not_mem_defs (.head _) (minted_mem_expand hle' hlt)

end Ssa

section Simulation

-- The relation that the pass keeps: source and target agree on the refs of the block, and the
-- constants of the block have their values.
structure Related (whole : List Stmt) (bound : Nat) (r : Reducer) (rest : List Stmt) (s t : State)
    (defined : List Ref) : Prop where
  tracks : Tracks whole bound r defined rest
  env : Env.AgreeOn (defined ++ rest.flatMap Stmt.defs) s.env t.env
  cpu : t.cpu = s.cpu
  known : ∀ q ∈ defined, ∀ v, definedConst whole q = some v → s.env.vals q = v

namespace Related

theorem known_step (h : Related whole bound r (stmt :: rest) s t defined)
    (hs : step stmt s = .next s') :
    ∀ q ∈ stmt.defs ++ defined, ∀ v, definedConst whole q = some v → s'.env.vals q = v := by
  intro q hq v hv
  rcases mem_append.mp hq with hq | hq
  · have ⟨value, size, hd, hop⟩ : ∃ value size, stmt.result = some q ∧
        stmt.op = .constant value size := by
      by_contra hnot
      have hnone := h.tracks.definedConst_defs hq fun value size hd hop =>
        hnot ⟨value, size, hd, hop⟩
      rw [hnone] at hv
      contradiction
    rw [h.tracks.ahead q (Tracks.mem_defs_head hq), definedConst_cons_constant hd hop, ← mask_eq_and] at hv
    simp only [step, hop, hd, evalOp, Step.bind_next, Step.next.injEq] at hs
    rw [← hs, Env.define_scalar_vals]
    exact Option.some.inj hv
  · rw [step_next_vals hs (result_ne_of_ssaFrom h.tracks.ssa hq)]
    exact h.known q hq v hv

theorem mem_refs (hq : q ∈ (stmt.defs ++ defined) ++ rest.flatMap Stmt.defs) :
    q ∈ defined ++ (stmt :: rest).flatMap Stmt.defs := by
  simp only [flatMap_cons, mem_append] at hq ⊢
  tauto

variable (h : Related whole bound r (stmt :: rest) s t defined)

include h

theorem step_same :
    MatchesAll step (·.1.supported)
      (fun s' t' => ∃ defined, Related whole bound (reduceStmt r stmt).1 rest s' t' defined)
      [stmt] t (step stmt s) := by
  have hoperands (p : Ref) (hp : p ∈ stmt.op.operandRefs) :
      p ∈ defined ++ (stmt :: rest).flatMap Stmt.defs :=
    mem_append_left _ (h.tracks.ssa.operands_mem hp)
  have heval : evalOp stmt.op stmt.result.isSome t.env t.cpu =
      evalOp stmt.op stmt.result.isSome s.env s.cpu := by
    rw [h.cpu]
    exact evalOp_congr (fun p hp => h.env.vals p (hoperands p hp))
      fun p hp => h.env.vecVals p (hoperands p hp)
  cases he : evalOp stmt.op stmt.result.isSome s.env s.cpu with
  | next res =>
    obtain ⟨cpu, value⟩ := res
    have hs := step_of_evalOp_next he
    rw [hs]
    refine ⟨{ env := t.env.define stmt.result value, cpu }, ?_, _, h.tracks.step,
      (h.env.define _ _).mono fun q hq => mem_refs hq, rfl, h.known_step hs⟩
    rw [exec_singleton, step_of_evalOp_next (heval.trans he)]
  | halt o =>
    rw [step_of_evalOp_halt he]
    intro _
    rw [exec_singleton, step_of_evalOp_halt (heval.trans he)]
  | panic =>
    rw [Prisma.step, he]
    exact trivial

theorem evalBinop_shift
    (hop : stmt.op = .binOp .mul lhs rhs size) (hs : shiftFor r.consts lhs rhs = some (k, operand)) :
    operand ∈ defined ∧ evalBinop .shl (s.env.vals operand) (mask k size) size =
      evalBinop .mul (s.env.vals lhs) (s.env.vals rhs) size := by
  have hl : lhs ∈ defined := h.tracks.ssa.operands_mem (by simp [hop, Op.operandRefs])
  have hr : rhs ∈ defined := h.tracks.ssa.operands_mem (by simp [hop, Op.operandRefs])
  rcases shiftFor_eq_some hs with ⟨rfl, hk⟩ | ⟨rfl, hk⟩
  · have ⟨v, hv, hlog⟩ := Option.bind_eq_some_iff.mp hk
    rw [h.known rhs hr v (h.tracks.consts rhs hr ▸ hv)]
    exact ⟨hl, evalBinop_shl_of_log2Pow2 hlog⟩
  · have ⟨v, hv, hlog⟩ := Option.bind_eq_some_iff.mp hk
    rw [h.known lhs hl v (h.tracks.consts lhs hl ▸ hv), evalBinop_mul_comm]
    exact ⟨hr, evalBinop_shl_of_log2Pow2 hlog⟩

theorem step_shift
    (hd : stmt.result = some d) (hop : stmt.op = .binOp .mul lhs rhs size)
    (hs : shiftFor r.consts lhs rhs = some (k, operand)) (hlt : r.nextRef < bound) :
    MatchesAll step (·.1.supported)
      (fun s' t' => ∃ defined, Related whole bound (reduceStmt r stmt).1 rest s' t' defined)
      [⟨some r.nextRef, .constant k size⟩, ⟨some d, .binOp .shl operand r.nextRef size⟩] t
      (step stmt s) := by
  have ⟨hoperand, hval⟩ := h.evalBinop_shift hop hs
  have ⟨hdefined, hdefs⟩ := h.tracks.fresh r.nextRef (le_refl _) hlt
  have ⟨p, hp⟩ : ∃ p, evalBinop .mul (s.env.vals lhs) (s.env.vals rhs) size = some p := ⟨_, rfl⟩
  rw [hp] at hval
  have hnext : step stmt s = .next { env := s.env.define stmt.result (.scalar p), cpu := s.cpu } :=
    step_of_evalOp_next (by simp [hop, evalOp, hp])
  have hne : ∀ q ∈ defined ++ (stmt :: rest).flatMap Stmt.defs, some r.nextRef ≠ some q := by
    intro q hq he
    cases he
    exact (mem_append.mp hq).elim hdefined hdefs
  have hagree := h.env.define_right (.scalar (mask k size)) hne
  rw [hnext]
  let shifted := t.env.define (some r.nextRef) (.scalar (mask k size))
  refine ⟨{ env := shifted.define stmt.result (.scalar p), cpu := t.cpu }, ?_, _, h.tracks.step,
    (hagree.define _ _).mono fun q hq => mem_refs hq, h.cpu, h.known_step hnext⟩
  have hread := hagree.vals operand (mem_append_left _ hoperand)
  simp [step, evalOp, hd, hread, hval, shifted]

theorem step :
    MatchesAll Prisma.step (·.1.supported)
      (fun s' t' => ∃ defined, Related whole bound (reduceStmt r stmt).1 rest s' t' defined)
      (reduceStmt r stmt).2 t (Prisma.step stmt s) := by
  rcases @reduceStmt_snd_cases stmt r with
    hsame | ⟨d, lhs, rhs, size, k, operand, hd, hop, hs, hlt, hshift⟩
  · rw [hsame]
    exact h.step_same
  · rw [hshift]
    exact h.step_shift hd hop hs (h.tracks.nextRef_lt hlt)

end Related

theorem interpretBlock_expand (h : Tracks stmts bound ⟨noConsts, q⟩ [] stmts)
    (ho : interpretBlock stmts regs = some o) (hg : o.1.supported) :
    interpretBlock (expand reduceStmt ⟨noConsts, q⟩ stmts).2 regs = some o := by
  refine run_expand (G := (·.1.supported))
    (R := fun r rest s t => ∃ defined, Related stmts bound r rest s t defined) ?nil ?cons
    ⟨[], h, .refl _ _, rfl, nofun⟩ ho hg
  case nil =>
    intro r s t ⟨defined, h⟩
    rw [State.fallthrough, State.fallthrough, h.cpu]
  case cons =>
    intro r stmt rest s t ⟨defined, h⟩
    exact h.step

end Simulation

section Main

theorem lt_firstFree (hmem : stmt ∈ stmts) (h : stmt.result = some q) : q < firstFree stmts :=
  le_foldl_max.right q (mem_filterMap.mpr ⟨stmt, hmem, h⟩)

theorem stmts_single : (Function.single stmts).stmts = stmts := by
  simp [Function.single, Function.stmts]

theorem strengthReduce_single :
    strengthReduce (.single stmts) =
      if (expand reduceStmt ⟨noConsts, firstFree stmts⟩ stmts).1.nextRef < 2 ^ 32 then
        some (.single (expand reduceStmt ⟨noConsts, firstFree stmts⟩ stmts).2)
      else none := by
  simp [strengthReduce, Function.single, Function.stmts, reduceBlocks]

theorem tracks_start (hs : Ssa stmts)
    (hfresh : ∀ p, firstFree stmts ≤ p → p < bound → p ∉ stmts.flatMap Stmt.defs)
    (hb : firstFree stmts + products stmts stmts ≤ bound ∨
      (expand reduceStmt ⟨noConsts, firstFree stmts⟩ stmts).1.nextRef ≤ bound) :
    Tracks stmts bound ⟨noConsts, firstFree stmts⟩ [] stmts where
  ssa := hs
  ahead _ _ := rfl
  consts := nofun
  later _ _ := rfl
  fresh p hle hlt := ⟨not_mem_nil, hfresh p hle hlt⟩
  bounded := hb

-- The pass mints refs from the one after the largest result on, one for each product by a power of
-- two. It keeps the outcome and the SSA form if and only if these refs are in the range of a `u32`
-- with its counter, and none of them is the second result of a statement.
theorem strengthReduce_preserves_iff {regs : GuestRegs} {o : BlockOutcome × GuestRegs}
    (hs : Ssa stmts) (ho : interpretBlock stmts regs = some o) (hg : o.1.supported) :
    (∃ out, strengthReduce (.single stmts) = some out ∧ Ssa out.stmts ∧
      interpretBlock out.stmts regs = some o) ↔
    firstFree stmts + products stmts stmts < 2 ^ 32 ∧
      ∀ stmt ∈ stmts, ∀ p, stmt.op.secondResult = some p →
        p < firstFree stmts ∨ firstFree stmts + products stmts stmts ≤ p := by
  rw [strengthReduce_single]
  constructor
  case mp =>
    intro ⟨out, hout, hssa, _⟩
    have ⟨hlt, hout⟩ := Option.ite_none_right_eq_some.mp hout
    cases hout
    rw [stmts_single] at hssa
    have hfresh := fun p hle hlt => not_mem_of_ssaFrom_expand (q := p) hssa hle hlt
    have hnext := (tracks_start hs hfresh (.inr (le_refl _))).nextRef_expand
    rw [hnext] at hlt hfresh
    refine ⟨hlt, fun stmt hmem p hp => ?_⟩
    by_contra hnot
    have ⟨hle, hlt⟩ := not_or.mp hnot
    refine hfresh p (not_lt.mp hle) (not_le.mp hlt) (mem_flatMap.mpr ⟨stmt, hmem, ?_⟩)
    simp [Stmt.defs, hp]
  case mpr =>
    intro ⟨hlt, hsecond⟩
    have hfresh (p : Ref) (hle : firstFree stmts ≤ p)
        (hlt : p < firstFree stmts + products stmts stmts) : p ∉ stmts.flatMap Stmt.defs := by
      intro hp
      have ⟨stmt, hmem, hp⟩ := mem_flatMap.mp hp
      rcases mem_append.mp hp with hp | hp
      · exact absurd (lt_firstFree hmem (Option.mem_toList.mp hp)) (not_lt.mpr hle)
      · exact (hsecond stmt hmem p (Option.mem_toList.mp hp)).elim (not_lt.mpr hle) (not_le.mpr hlt)
    have htracks := tracks_start hs hfresh (.inl (le_refl _))
    rw [if_pos (htracks.nextRef_expand ▸ hlt)]
    refine ⟨_, rfl, ?_, ?_⟩
    · rw [stmts_single]
      exact htracks.ssaFrom_expand nofun nofun
    · rw [stmts_single]
      exact interpretBlock_expand htracks ho hg

-- Stores eight times a register.
def timesEight : List Stmt :=
  [⟨some 0, .constant 8 .i64⟩, ⟨some 1, .loadReg .rbx .i64⟩, ⟨some 2, .binOp .mul 1 0 .i32⟩,
    ⟨none, .storeReg .rax 2 .i64⟩]

theorem strengthReduce_preserves_iff_timesEight :
    products timesEight timesEight = 1 ∧ ∃ out, strengthReduce (.single timesEight) = some out ∧
      Ssa out.stmts ∧ interpretBlock out.stmts .default =
        some (.fallthrough, storeReg .default .rax 0 .i64) := by
  have hsecond : ∀ stmt ∈ timesEight, stmt.op.secondResult = none := by decide
  refine ⟨by decide, (strengthReduce_preserves_iff (by decide) rfl rfl).mpr ⟨by decide, ?_⟩⟩
  intro stmt hmem p hp
  rw [hsecond stmt hmem] at hp
  contradiction

-- A statement behind a jump has a second result that is larger than all results.
def clash : List Stmt :=
  [⟨some 0, .constant 2 .i64⟩, ⟨some 1, .binOp .mul 0 0 .i64⟩, ⟨none, .jumpRel 0⟩,
    ⟨some 2, .atomicCmpxchgPair 0 0 0 0 0 3⟩]

-- The minted ref is this second result.
theorem not_strengthReduce_preserves :
    ¬∀ stmts regs o, Ssa stmts → interpretBlock stmts regs = some o → o.1.supported →
      ∃ out, strengthReduce (.single stmts) = some out ∧ Ssa out.stmts ∧
        interpretBlock out.stmts regs = some o := by
  intro h
  have ⟨out, hout, hssa, _⟩ := h clash .default (.branch 0, .default) (by decide) rfl rfl
  rw [strengthReduce_single] at hout
  have ⟨_, hout⟩ := Option.ite_none_right_eq_some.mp hout
  cases hout
  rw [stmts_single] at hssa
  exact not_mem_of_ssaFrom_expand (q := 3) hssa (by decide) (by decide) (by decide)

end Main

end Prisma.StrengthReduce
