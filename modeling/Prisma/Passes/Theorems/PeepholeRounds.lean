import Mathlib
import Prisma.Passes.Theorems.Peephole

-- How many rounds the rules need, and when the bound on their number is too low.

namespace Prisma.Peephole

open Option Function

-- After how many rounds the latest definition of a ref is the constant zero.
noncomputable def zeroAfter : Before → Ref → ℕ∞
  | [], _ => ⊤
  | stmt :: before, r =>
    if stmt.result = some r then
      match stmt.op with
      | .constant value _ => if value = 0 then 0 else ⊤
      | .binOp .xor lhs rhs _ => if lhs = rhs then 1 else ⊤
      | .binOp .mul lhs rhs _ =>
        if tryConst before lhs = some 1 ∨ tryConst before rhs = some 1 then ⊤
        else min (zeroAfter before lhs) (zeroAfter before rhs) + 1
      | _ => ⊤
    else zeroAfter before r

noncomputable def rewrittenIn (before : Before) (stmt : Stmt) : ℕ∞ :=
  if stmt.result.isNone then ⊤
  else
    match stmt.op with
    | .binOp .xor lhs rhs _ | .binOp .or lhs rhs _ | .binOp .and lhs rhs _ =>
      if lhs = rhs then 1 else ⊤
    | .binOp .add lhs rhs _ => min (zeroAfter before lhs) (zeroAfter before rhs) + 1
    | .binOp .sub _ rhs _ => zeroAfter before rhs + 1
    | .binOp .mul lhs rhs _ =>
      if tryConst before lhs = some 1 ∨ tryConst before rhs = some 1 then 1
      else min (zeroAfter before lhs) (zeroAfter before rhs) + 1
    | .extend _ fromSize toSize _ => if fromSize = toSize then 1 else ⊤
    | _ => ⊤

-- The rounds in which the statements are rewritten.
def EachRound (P : ℕ∞ → Prop) : Before → List Stmt → Prop
  | _, [] => True
  | before, stmt :: stmts => P (rewrittenIn before stmt) ∧ EachRound P (stmt :: before) stmts

-- Each statement is rewritten within this many rounds, or never.
def Settles (n : Nat) (stmts : List Stmt) : Prop :=
  EachRound (fun m => m ≤ n ∨ m = ⊤) [] stmts

-- Whether a statement becomes a constant when it is rewritten.
def Zeroes (before : Before) (stmt : Stmt) : Prop :=
  match stmt.op with
  | .binOp .xor _ _ _ => True
  | .binOp .mul lhs rhs _ => tryConst before lhs ≠ some 1 ∧ tryConst before rhs ≠ some 1
  | _ => False

inductive StmtAfter (k : Nat) (before : Before) (stmt : Stmt) : Stmt → Prop
  | same (h : k < rewrittenIn before stmt) : StmtAfter k before stmt stmt
  | zero {size} (h : rewrittenIn before stmt ≤ k) (hz : Zeroes before stmt) :
    StmtAfter k before stmt ⟨stmt.result, .constant 0 size⟩
  | copy {keep size} (h : rewrittenIn before stmt ≤ k) (hz : ¬Zeroes before stmt) :
    StmtAfter k before stmt ⟨stmt.result, .truncate keep size⟩

inductive After (k : Nat) : Before → Before → Prop
  | nil : After k [] []
  | cons {before before' stmt stmt'} (h : After k before before')
    (hs : StmtAfter k before stmt stmt') : After k (stmt :: before) (stmt' :: before')

inductive AfterAll (k : Nat) : Before → List Stmt → List Stmt → Prop
  | nil {before} : AfterAll k before [] []
  | cons {before stmt stmt' stmts stmts'} (hs : StmtAfter k before stmt stmt')
    (h : AfterAll k (stmt :: before) stmts stmts') :
    AfterAll k before (stmt :: stmts) (stmt' :: stmts')

variable {k k' n : Nat} {before before' : Before} {stmt stmt' : Stmt} {stmts stmts' : List Stmt}
  {r : Ref}

theorem StmtAfter.result_eq (h : StmtAfter k before stmt stmt') : stmt'.result = stmt.result := by
  cases h <;> rfl

theorem tryConst_cons_self (h : stmt.result = some r) :
    tryConst (stmt :: before) r = match stmt.op with
      | .constant value _ => some value
      | _ => none := by
  have hfind : (stmt :: before).find? (·.result = some r) = some stmt := by simp [h]
  rw [tryConst, hfind]
  obtain ⟨result, op⟩ := stmt
  cases op <;> rfl

theorem tryConst_cons_eq_none (h : stmt.result = some r)
    (hop : ∀ value size, stmt.op ≠ .constant value size) : tryConst (stmt :: before) r = none := by
  rw [tryConst_cons_self h]
  split
  case h_1 value size heq => exact absurd heq (hop value size)
  case h_2 => rfl

theorem zeroAfter_cons_of_ne (h : stmt.result ≠ some r) :
    zeroAfter (stmt :: before) r = zeroAfter before r :=
  if_neg h

theorem zeroAfter_cons_self (before : Before) (h : stmt.result = some r) :
    (∃ value size, stmt.op = .constant value size ∧
      zeroAfter (stmt :: before) r = if value = 0 then 0 else ⊤) ∨
    ((∀ value size, stmt.op ≠ .constant value size) ∧
      (Zeroes before stmt → zeroAfter (stmt :: before) r = rewrittenIn before stmt) ∧
      (¬Zeroes before stmt → zeroAfter (stmt :: before) r = ⊤)) := by
  obtain ⟨result, op⟩ := stmt
  cases h
  cases op
  case constant value size => exact .inl ⟨value, size, rfl, by simp [zeroAfter]⟩
  case binOp kind lhs rhs size =>
    refine .inr ⟨nofun, ?_⟩
    cases kind
    case xor => simp [zeroAfter, Zeroes, rewrittenIn]
    case mul =>
      refine ⟨fun hz => ?_, fun hz => ?_⟩
      · have hone := not_or.mpr hz
        simp only [zeroAfter, rewrittenIn, if_neg hone]
        rfl
      · have hone := not_not.mp fun hone => hz (not_or.mp hone)
        simp only [zeroAfter, if_pos hone]
        rfl
    all_goals exact ⟨fun hz => hz.elim, fun _ => if_pos rfl⟩
  all_goals exact .inr ⟨nofun, fun hz => hz.elim, fun _ => if_pos rfl⟩

theorem rewrittenIn_constant (h : stmt.op = .constant value size) :
    rewrittenIn before stmt = ⊤ := by
  simp [rewrittenIn, h]

theorem After.tryConst_iff (h : After k before before') (r : Ref) :
    (tryConst before' r = some 0 ↔ zeroAfter before r ≤ k) ∧
      (tryConst before' r = some 1 ↔ tryConst before r = some 1) := by
  induction h with
  | nil => simp [tryConst, zeroAfter]
  | @cons before before' stmt stmt' _ hs hi =>
    by_cases hd : stmt.result = some r
    case neg =>
      rw [tryConst_cons_of_ne (hs.result_eq ▸ hd), zeroAfter_cons_of_ne hd, tryConst_cons_of_ne hd]
      exact hi
    case pos =>
      have hzero := zeroAfter_cons_self before hd
      cases hs with
      | same hlt =>
        refine ⟨?_, by rw [tryConst_cons_self hd, tryConst_cons_self hd]⟩
        rcases hzero with ⟨value, size, hop, hz⟩ | ⟨hne, hz, hn⟩
        · rw [hz, tryConst_cons_self hd, hop]
          by_cases hv : value = 0
          · simp [hv]
          · rw [if_neg hv]
            exact ⟨fun h => absurd (Option.some.inj h) hv, fun h => absurd h (by simp)⟩
        · rw [tryConst_cons_eq_none hd hne]
          by_cases hzeroes : Zeroes before stmt
          · rw [hz hzeroes]
            exact ⟨by simp, fun hle => absurd hle hlt.not_ge⟩
          · rw [hn hzeroes]
            exact ⟨by simp, fun hle => absurd hle (by simp)⟩
      | @zero size hle hzeroes =>
        have hzero := hzero.resolve_left (by
          rintro ⟨value, size, hop, _⟩
          simp [Zeroes, hop] at hzeroes)
        have hnew : tryConst (⟨stmt.result, .constant 0 size⟩ :: before') r = some 0 :=
          tryConst_cons_self hd
        rw [hnew, tryConst_cons_eq_none hd hzero.left, hzero.right.left hzeroes]
        exact ⟨⟨fun _ => hle, fun _ => rfl⟩, by simp⟩
      | @copy keep size hle hzeroes =>
        have hzero := hzero.resolve_left (by
          rintro ⟨value, size, hop, _⟩
          simp [rewrittenIn_constant hop] at hle)
        have hnew : tryConst (⟨stmt.result, .truncate keep size⟩ :: before') r = none :=
          tryConst_cons_self hd
        rw [hnew, tryConst_cons_eq_none hd hzero.left, hzero.right.right hzeroes]
        simp

theorem matchRule_after (stmt : Stmt) (hb : After k before before') :
    match matchRule before' stmt with
    | none => ((k + 1 : Nat) : ℕ∞) < rewrittenIn before stmt
    | some op => rewrittenIn before stmt ≤ ((k + 1 : Nat) : ℕ∞) ∧
      ((Zeroes before stmt ∧ ∃ size, op = .constant 0 size) ∨
        (¬Zeroes before stmt ∧ ∃ keep size, op = .truncate keep size)) := by
  obtain ⟨result, op⟩ := stmt
  have hzero (r : Ref) := (hb.tryConst_iff r).left
  have hone (r : Ref) := (hb.tryConst_iff r).right
  cases result with
  | none => simp [matchRule, rewrittenIn]
  | some d =>
    cases op
    case binOp kind lhs rhs size =>
      cases kind
      case xor | or | and =>
        simp only [matchRule, matchBinop, rewrittenIn, isNone_some]
        by_cases hsame : lhs = rhs
        · simp [hsame, Zeroes]
        · simp [hsame]
      case add =>
        simp only [matchRule, matchBinop, rewrittenIn, isNone_some, hzero]
        by_cases hl : zeroAfter before lhs ≤ k
        · simp [hl, Zeroes]
        · by_cases hr : zeroAfter before rhs ≤ k
          · simp [hl, hr, Zeroes]
          · simpa [hl, hr] using ⟨not_le.mp hl, not_le.mp hr⟩
      case sub =>
        simp only [matchRule, matchBinop, rewrittenIn, isNone_some, hzero]
        by_cases hr : zeroAfter before rhs ≤ k
        · simp [hr, Zeroes]
        · simpa [hr] using not_le.mp hr
      case mul =>
        simp only [matchRule, matchBinop, rewrittenIn, isNone_some, hzero, hone]
        by_cases hl : tryConst before lhs = some 1
        · simp [hl, Zeroes]
        by_cases hr : tryConst before rhs = some 1
        · simp only [if_neg hl, if_pos hr, if_pos (Or.inr hr)]
          exact ⟨by simp, .inr ⟨fun hz => hz.right hr, lhs, size, rfl⟩⟩
        simp only [if_neg hl, if_neg hr, if_neg (not_or.mpr ⟨hl, hr⟩)]
        by_cases hzero : zeroAfter before lhs ≤ k ∨ zeroAfter before rhs ≤ k
        · simp only [if_pos hzero]
          exact ⟨by simpa using hzero, .inl ⟨⟨hl, hr⟩, size, rfl⟩⟩
        · simpa [if_neg hzero] using not_or.mp hzero
      all_goals simp [matchRule, matchBinop, rewrittenIn]
    case extend value fromSize toSize isSigned =>
      simp only [matchRule, rewrittenIn, isNone_some]
      by_cases hsame : fromSize = toSize
      · simp [hsame, Zeroes]
      · simp [hsame]
    all_goals simp [matchRule, rewrittenIn]

theorem StmtAfter.round (hb : After k before before') (hs : StmtAfter k before stmt stmt') :
    StmtAfter (k + 1) before stmt (rewriteStmt before' stmt') := by
  have hk : (k : ℕ∞) ≤ ((k + 1 : Nat) : ℕ∞) := by simp
  cases hs with
  | same =>
    have hmatch := matchRule_after stmt hb
    unfold rewriteStmt
    cases hm : matchRule before' stmt with
    | none =>
      rw [hm] at hmatch
      exact .same hmatch
    | some op =>
      rw [hm] at hmatch
      rcases hmatch with ⟨hle, ⟨hz, size, rfl⟩ | ⟨hz, keep, size, rfl⟩⟩
      · exact .zero hle hz
      · exact .copy hle hz
  | @zero size hle hz =>
    have hstays : rewriteStmt before' ⟨stmt.result, .constant 0 size⟩ =
        ⟨stmt.result, .constant 0 size⟩ := by simp [rewriteStmt, matchRule]
    rw [hstays]
    exact .zero (hle.trans hk) hz
  | @copy keep size hle hz =>
    have hstays : rewriteStmt before' ⟨stmt.result, .truncate keep size⟩ =
        ⟨stmt.result, .truncate keep size⟩ := by simp [rewriteStmt, matchRule]
    rw [hstays]
    exact .copy (hle.trans hk) hz

theorem AfterAll.round (hb : After k before before') (h : AfterAll k before stmts stmts') :
    AfterAll (k + 1) before stmts (runOnce before' stmts').1 := by
  induction h generalizing before' with
  | nil => exact .nil
  | cons hs _ hi =>
    rw [runOnce_cons]
    exact .cons (hs.round hb) (hi (.cons hb hs))

theorem rewrittenIn_pos : (0 : ℕ∞) < rewrittenIn before stmt := by
  obtain ⟨result, op⟩ := stmt
  unfold rewrittenIn
  split
  · simp
  split
  all_goals first
    | split <;> simp
    | simp

theorem afterAll_zero : AfterAll 0 before stmts stmts := by
  induction stmts generalizing before with
  | nil => exact .nil
  | cons stmt stmts hi => exact .cons (.same (by simpa using rewrittenIn_pos)) hi

theorem runOnce_of_not_changed (h : (runOnce before stmts).2 = false) :
    (runOnce before stmts).1 = stmts := by
  induction stmts generalizing before with
  | nil => rfl
  | cons stmt stmts hi =>
    simp only [runOnce] at h ⊢
    split at h
    · contradiction
    · rw [hi h]

def round (stmts : List Stmt) : List Stmt :=
  (runOnce [] stmts).1

theorem rounds_eq_iterate : rounds n stmts = round^[n] stmts := by
  induction n generalizing stmts with
  | zero => rfl
  | succ n hi =>
    simp only [rounds, Function.iterate_succ_apply]
    split
    case isTrue => exact hi
    case isFalse h =>
      have hsame : round stmts = stmts := runOnce_of_not_changed (Bool.eq_false_iff.mpr h)
      rw [show (runOnce [] stmts).1 = stmts from hsame, hsame, Function.iterate_fixed hsame]

theorem afterAll_iterate : AfterAll k [] stmts (round^[k] stmts) := by
  induction k with
  | zero => exact afterAll_zero
  | succ k hi =>
    rw [Function.iterate_succ_apply']
    exact hi.round .nil

theorem EachRound.imp {P Q : ℕ∞ → Prop} (h : ∀ m, P m → Q m) (hp : EachRound P before stmts) :
    EachRound Q before stmts := by
  induction stmts generalizing before with
  | nil => exact trivial
  | cons stmt stmts hi => exact ⟨h _ hp.left, hi hp.right⟩

theorem eachRound_forall {P : Nat → ℕ∞ → Prop} (h : ∀ k, EachRound (P k) before stmts) :
    EachRound (fun m => ∀ k, P k m) before stmts := by
  induction stmts generalizing before with
  | nil => exact trivial
  | cons stmt stmts hi => exact ⟨fun k => (h k).left, hi fun k => (h k).right⟩

theorem StmtAfter.fixed (hb : After k before before') (hs : StmtAfter k before stmt stmt')
    (hr : rewrittenIn before stmt ≤ k ∨ ((k + 1 : Nat) : ℕ∞) < rewrittenIn before stmt) :
    rewriteStmt before' stmt' = stmt' := by
  cases hs with
  | same hlt =>
    have hlate := hr.resolve_left (not_le.mpr hlt)
    have hmatch := matchRule_after stmt hb
    unfold rewriteStmt
    cases hm : matchRule before' stmt with
    | none => rfl
    | some op =>
      rw [hm] at hmatch
      exact absurd hmatch.left (not_le.mpr hlate)
  | zero | copy => simp [rewriteStmt, matchRule]

theorem runOnce_fixed (hb : After k before before') (h : AfterAll k before stmts stmts')
    (hr : EachRound (fun m => m ≤ k ∨ ((k + 1 : Nat) : ℕ∞) < m) before stmts) :
    (runOnce before' stmts').1 = stmts' := by
  induction h generalizing before' with
  | nil => rfl
  | cons hs _ hi => rw [runOnce_cons, hs.fixed hb hr.left, hi (.cons hb hs) hr.right]

theorem StmtAfter.not_between (h : StmtAfter k before stmt stmt') (h' : StmtAfter k' before stmt stmt') :
    rewrittenIn before stmt ≤ k ∨ (k' : ℕ∞) < rewrittenIn before stmt := by
  cases stmt
  cases h with
  | zero hle | copy hle => exact .inl hle
  | same =>
    refine .inr ?_
    cases h' with
    | same hlt => exact hlt
    | zero => simp [rewrittenIn]
    | copy => simp [rewrittenIn]

theorem AfterAll.not_between (h : AfterAll k before stmts stmts')
    (h' : AfterAll k' before stmts stmts') :
    EachRound (fun m => m ≤ k ∨ (k' : ℕ∞) < m) before stmts := by
  induction h with
  | nil => exact trivial
  | cons hs _ hi =>
    cases h' with
    | cons hs' h' => exact ⟨hs.not_between hs', hi h'⟩

theorem iterate_round_fixed (h : Settles n stmts) : round (round^[n] stmts) = round^[n] stmts := by
  refine runOnce_fixed .nil afterAll_iterate (EachRound.imp ?_ h)
  intro m hm
  refine hm.imp_right fun htop => ?_
  rw [htop]
  exact ENat.natCast_lt_top _

theorem settles_of_iterate_fixed (h : round (round^[n] stmts) = round^[n] stmts) :
    Settles n stmts := by
  have hsame (k : Nat) : round^[k + n] stmts = round^[n] stmts := by
    rw [Function.iterate_add_apply, Function.iterate_fixed h]
  have hrounds (k : Nat) : EachRound (fun m => m ≤ n ∨ ((k + n : Nat) : ℕ∞) < m) [] stmts :=
    afterAll_iterate.not_between (hsame k ▸ afterAll_iterate)
  refine EachRound.imp ?_ (eachRound_forall hrounds)
  intro m hm
  refine or_iff_not_imp_left.mpr fun hle => ENat.eq_top_iff_forall_ge.mpr fun k => ?_
  have hlt := (hm k).resolve_left hle
  exact le_of_lt (lt_of_le_of_lt (by simp) hlt)

-- Repeating the rounds changes nothing if and only if every statement is rewritten in one of them
-- or never.
theorem rounds_fixed_iff : rounds (n + 1) (rounds (n + 1) stmts) = rounds (n + 1) stmts ↔
    Settles (n + 1) stmts := by
  simp only [rounds_eq_iterate]
  constructor
  case mp =>
    intro h
    have htwice : round^[n + 1 + (n + 1)] stmts = round^[n + 1] stmts := by
      rw [Function.iterate_add_apply, h]
    have hrounds : EachRound (fun m => m ≤ (n + 1 : Nat) ∨ ((n + 1 + (n + 1) : Nat) : ℕ∞) < m) []
        stmts := afterAll_iterate.not_between (htwice ▸ afterAll_iterate)
    refine settles_of_iterate_fixed (runOnce_fixed .nil afterAll_iterate (EachRound.imp ?_ hrounds))
    intro m hm
    refine hm.imp_right fun hlt => lt_of_le_of_lt ?_ hlt
    norm_cast
    exact Nat.add_le_add_left (Nat.le_add_left 1 n) (n + 1)
  case mpr =>
    intro h
    exact Function.iterate_fixed (iterate_round_fixed h) _

-- The result of the pass is a fixed point if and only if no statement needs more than the eight
-- rounds that it takes.
theorem peepholeOptimiseDefault_fixed_iff (func : Function) :
    peepholeOptimiseDefault (peepholeOptimiseDefault func) = peepholeOptimiseDefault func ↔
      ∀ block ∈ func.blocks, Settles maxIterations block.stmts := by
  simp only [peepholeOptimiseDefault, Function.mapBlocks, Function.mk.injEq, List.map_map,
    List.map_inj_left, and_true]
  refine forall₂_congr fun block _ => ?_
  simp only [Function.comp_apply, BasicBlock.mk.injEq, true_and]
  exact rounds_fixed_iff

-- A chain of products whose first factor is zero.
def zeroChain : List Stmt :=
  ⟨some 0, .loadReg .rbx .i64⟩ :: ⟨some 1, .binOp .xor 0 0 .i64⟩ ::
    (List.range 8).map fun i => ⟨some (i + 2), .binOp .mul (i + 1) 0 .i64⟩

theorem not_peepholeOptimiseDefault_fixed :
    ¬∀ func, peepholeOptimiseDefault (peepholeOptimiseDefault func) =
      peepholeOptimiseDefault func := by
  intro h
  have hlast := congrArg (fun func => func.stmts[9]?) (h (.single zeroChain))
  nomatch hlast

end Prisma.Peephole
