import Prisma.Passes.DeadStore
import Prisma.Interp.Theorems.Memory

namespace Prisma.DeadStore

open Machine ByteMemory List

-- A store through the same ref at the same size follows before earlier stores may be observed.
def overwritten (addr : Ref) (size : OpSize) : List Stmt → Bool
  | [] => false
  | stmt :: stmts =>
    match stmt.op with
    | .storeMem a _ z => (a = addr ∧ z = size) || overwritten addr size stmts
    | op => !clears op && overwritten addr size stmts

def isDead (stmt : Stmt) (stmts : List Stmt) : Bool :=
  match stmt.op with
  | .storeMem addr _ size => overwritten addr size stmts
  | _ => false

-- The dropped stores that are not overwritten yet, by their address refs and sizes.
abbrev Outstanding := List (Ref × OpSize)

section Scan

variable {pending : Pending} {i j : Nat} {stmt : Stmt} {stmts : List Stmt}

-- How a statement changes what is outstanding among the dropped stores.
def nextOutstanding (out : Outstanding) (stmt : Stmt) (stmts : List Stmt) : Outstanding :=
  match stmt.op with
  | .storeMem addr _ size =>
    if isDead stmt stmts then (addr, size) :: out else out.filter (· ≠ (addr, size))
  | _ => out

theorem stmt_cases (stmt : Stmt) :
    (∃ result addr value size, stmt = ⟨result, .storeMem addr value size⟩) ∨
    ((∀ pending i stmts, deadStores pending i (stmt :: stmts) =
        deadStores (if clears stmt.op then .empty else pending) (i + 1) stmts) ∧
      (∀ addr size stmts, overwritten addr size (stmt :: stmts) =
        (!clears stmt.op && overwritten addr size stmts)) ∧
      (∀ stmts, isDead stmt stmts = false) ∧
      ∀ out stmts, nextOutstanding out stmt stmts = out) := by
  have ⟨result, op⟩ := stmt
  cases op
  case storeMem addr value size => exact .inl ⟨_, _, _, _, rfl⟩
  all_goals exact .inr ⟨fun _ _ _ => rfl, fun _ _ _ => rfl, fun _ => rfl, fun _ _ => rfl⟩

theorem insert_eq_some_iff :
    pending.insert addr size i r z = some j ↔
      ((r = addr ∧ z = size) ∧ i = j) ∨ (¬(r = addr ∧ z = size) ∧ pending r z = some j) := by
  simp only [Pending.insert]
  split
  case isTrue h => simp [h]
  case isFalse h => simp [h]

theorem mem_deadStores_iff_of_lt (h : j < i) :
    j ∈ deadStores pending i stmts ↔
      ∃ addr size, pending addr size = some j ∧ overwritten addr size stmts := by
  induction stmts generalizing pending i
  case nil => simp [deadStores, overwritten]
  case cons stmt stmts hi =>
    have hi {pending : Pending} := @hi pending (i + 1) (Nat.lt_succ_of_lt h)
    obtain ⟨result, addr, value, size, rfl⟩ | ⟨hd, ho, _, _⟩ := stmt_cases stmt
    case inl =>
      have hne : i ≠ j := Nat.ne_of_gt h
      simp only [deadStores, overwritten, mem_append, hi, insert_eq_some_iff, hne, and_false,
        false_or, Option.mem_toList, Bool.or_eq_true, decide_eq_true_eq]
      constructor
      case mp =>
        intro h
        obtain hp | ⟨r, z, ⟨_, hp⟩, ho⟩ := h
        case inl => exact ⟨addr, size, hp, .inl ⟨rfl, rfl⟩⟩
        case inr => exact ⟨r, z, hp, .inr ho⟩
      case mpr =>
        intro ⟨r, z, hp, ho⟩
        by_cases hk : r = addr ∧ z = size
        case pos => exact .inl (hk.left ▸ hk.right ▸ hp)
        case neg =>
          exact .inr ⟨r, z, ⟨hk, hp⟩, ho.resolve_left fun h => hk ⟨h.left.symm, h.right.symm⟩⟩
    case inr =>
      simp only [hd, ho, hi]
      cases hc : clears stmt.op <;> simp [Pending.empty]

-- The pending indices stand before the scanned statements.
def Pending.Before (pending : Pending) (i : Nat) : Prop :=
  ∀ r z j, pending r z = some j → j < i

theorem Pending.Before.cons (h : pending.Before i) (stmt : Stmt) (stmts : List Stmt) :
    ∃ pending' : Pending, pending'.Before (i + 1) ∧
      (i ∈ deadStores pending' (i + 1) stmts ↔ isDead stmt stmts) ∧
      ∀ j, i ≤ j → (j ∈ deadStores pending i (stmt :: stmts) ↔ j ∈ deadStores pending' (i + 1) stmts) := by
  obtain ⟨result, addr, value, size, rfl⟩ | ⟨hd, _, hi, _⟩ := stmt_cases stmt
  case inl =>
    refine ⟨pending.insert addr size i, ?_, ?_, ?_⟩
    case refine_1 =>
      intro r z j hj
      obtain ⟨_, rfl⟩ | ⟨_, hp⟩ := insert_eq_some_iff.mp hj
      case inl => exact Nat.lt_succ_self _
      case inr => exact Nat.lt_succ_of_lt (h _ _ _ hp)
    case refine_2 =>
      rw [mem_deadStores_iff_of_lt (Nat.lt_succ_self i)]
      simp only [isDead]
      constructor
      case mp =>
        intro ⟨r, z, hp, ho⟩
        obtain ⟨⟨rfl, rfl⟩, _⟩ | ⟨_, hp⟩ := insert_eq_some_iff.mp hp
        case inl => exact ho
        case inr => exact absurd (h _ _ _ hp) (Nat.lt_irrefl i)
      case mpr =>
        intro ho
        exact ⟨addr, size, insert_eq_some_iff.mpr (.inl ⟨⟨rfl, rfl⟩, rfl⟩), ho⟩
    case refine_3 =>
      intro j hj
      simp only [deadStores, mem_append, Option.mem_toList, or_iff_right_iff_imp]
      intro hp
      exact absurd (h _ _ _ hp) (Nat.not_lt.mpr hj)
  case inr =>
    refine ⟨if clears stmt.op then .empty else pending, ?_, ?_, ?_⟩
    case refine_1 =>
      intro r z j hj
      split at hj
      case isTrue => cases hj
      case isFalse => exact Nat.lt_succ_of_lt (h _ _ _ hj)
    case refine_2 =>
      rw [mem_deadStores_iff_of_lt (Nat.lt_succ_self i), hi]
      simp only [Bool.false_eq_true, iff_false]
      intro ⟨r, z, hp, _⟩
      split at hp
      case isTrue => cases hp
      case isFalse => exact absurd (h _ _ _ hp) (Nat.lt_irrefl i)
    case refine_3 =>
      intro j _
      rw [hd]

-- The statements that stay, by looking ahead instead of marking indices.
def keptStmts : List Stmt → List Stmt
  | [] => []
  | stmt :: stmts => if isDead stmt stmts then keptStmts stmts else stmt :: keptStmts stmts

theorem filter_deadStores (h : pending.Before i) (dead : List Nat)
    (hd : ∀ j, i ≤ j → (j ∈ dead ↔ j ∈ deadStores pending i stmts)) :
    ((stmts.zipIdx i).filter fun (_, j) => !dead.contains j).map (·.1) = keptStmts stmts := by
  induction stmts generalizing pending i
  case nil => rfl
  case cons stmt stmts hi =>
    have ⟨pending', hb, hh, ht⟩ := h.cons stmt stmts
    have hi := hi hb fun j hj => (hd j (by omega)).trans (ht j (by omega))
    have hm : dead.contains i = isDead stmt stmts := by
      apply Bool.eq_iff_iff.mpr
      rw [contains_iff_mem, hd i (Nat.le_refl i), ht i (Nat.le_refl i), hh]
    simp only [zipIdx_cons, filter_cons, hm, keptStmts]
    cases isDead stmt stmts
    case false => simpa using hi
    case true => simpa using hi

theorem eliminate_eq (stmts : List Stmt) : eliminate stmts = keptStmts stmts :=
  filter_deadStores (fun _ _ _ h => by cases h) _ fun _ _ => Iff.rfl

end Scan

-- What is known before a statement: the statements that follow it, and the dropped stores.
structure Known where
  rest : List Stmt
  outstanding : Outstanding

def Known.next (known : Known) (stmt : Stmt) : Known where
  rest := known.rest.tail
  outstanding := nextOutstanding known.outstanding stmt known.rest

-- The bytes of the range belong to no outstanding store.
def Untouched (out : Outstanding) (env : Env) (addr : U64) (n : Nat) : Prop :=
  ∀ k ∈ out, Apart addr n (env.vals k.1) k.2.bytes

instance (out : Outstanding) (env : Env) (addr : U64) (n : Nat) :
    Decidable (Untouched out env addr n) :=
  inferInstanceAs (Decidable (∀ k ∈ out, _))

-- Vector loads and gathers do not read the bytes of an outstanding store. All other loads clear the
-- table of pending stores.
def ReadsUntouched (out : Outstanding) (op : Op) (env : Env) : Prop :=
  match op with
  | .loadVec addr => Untouched out env (env.vals addr) 16
  | .vecGather base index mask _ scaleShift elemIs64 indexIs64 laneCount destLaneBase
      indexLaneBase =>
    let g := gatherOf base index mask scaleShift elemIs64 indexIs64 laneCount destLaneBase
      indexLaneBase env
    ∀ e ∈ g.elements, Untouched out env e.2 g.elemSize.bytes
  | _ => True

-- The statement does not observe an outstanding store, neither by a load nor by ending the block.
structure Unobserved (sem : OpSemantics) (known : Known) (stmt : Stmt) (s : MemState) : Prop where
  reads : ReadsUntouched known.outstanding stmt.op s.env
  exits : ∀ o, memStep sem stmt s = .halt o → o.outcome.supported → known.outstanding = []

theorem Unobserved.of_next {known : Known} {stmt : Stmt} {s : MemState}
    (h : ReadsUntouched known.outstanding stmt.op s.env) (hs : memStep sem stmt s = .next s') :
    Unobserved sem known stmt s where
  reads := h
  exits o ho := by simp [hs] at ho

-- No step of the run observes a dropped store.
def StoresUnobserved (sem : OpSemantics) (stmts : List Stmt) (regs : GuestRegs) (mem : Memory) :
    Prop :=
  Along (memStep sem) (fun known stmt _ => known.next stmt) (Unobserved sem) ⟨stmts.tail, []⟩ stmts
    (.entry regs mem)

-- The outstanding stores go through refs that are defined, and get overwritten.
structure Due (defined : List Ref) (out : Outstanding) (stmts : List Stmt) : Prop where
  mem : ∀ k ∈ out, k.1 ∈ defined
  overwritten : ∀ k ∈ out, overwritten k.1 k.2 stmts

namespace Due

variable {defined : List Ref} {out : Outstanding} {stmt : Stmt} {stmts : List Stmt}

theorem eq_nil_of_clears (h : Due defined out (stmt :: stmts)) (hc : clears stmt.op) : out = [] := by
  apply eq_nil_iff_forall_not_mem.mpr
  intro k hk
  have ho := h.overwritten k hk
  obtain ⟨result, addr, value, size, rfl⟩ | ⟨_, hs, _, _⟩ := stmt_cases stmt
  case inl => cases hc
  case inr => simp [hs, hc] at ho

theorem eq_nil (h : Due defined out []) : out = [] := by
  apply eq_nil_iff_forall_not_mem.mpr
  intro k hk
  exact absurd (h.overwritten k hk) (by simp [DeadStore.overwritten])

theorem weaken (h : Due defined out stmts) (more : List Ref) : Due (more ++ defined) out stmts where
  mem k hk := mem_append_right _ (h.mem k hk)
  overwritten := h.overwritten

theorem tail (h : Due defined out (⟨result, .storeMem addr value size⟩ :: stmts)) (hk : k ∈ out) :
    k = (addr, size) ∨ DeadStore.overwritten k.1 k.2 stmts := by
  have ho := h.overwritten k hk
  simp only [DeadStore.overwritten, Bool.or_eq_true, decide_eq_true_eq] at ho
  obtain ⟨ha, hz⟩ | ho := ho
  case inl => exact .inl (Prod.ext ha.symm hz.symm)
  case inr => exact .inr ho

theorem next_storeMem (h : Due defined out (⟨result, .storeMem addr value size⟩ :: stmts))
    (ha : addr ∈ defined) :
    Due defined (nextOutstanding out ⟨result, .storeMem addr value size⟩ stmts) stmts := by
  simp only [nextOutstanding]
  by_cases hd : isDead ⟨result, .storeMem addr value size⟩ stmts
  case pos =>
    rw [if_pos hd]
    refine ⟨forall_mem_cons.mpr ⟨ha, h.mem⟩, forall_mem_cons.mpr ⟨hd, fun k hk => ?_⟩⟩
    obtain rfl | ho := h.tail hk
    case inl => exact hd
    case inr => exact ho
  case neg =>
    rw [if_neg hd]
    refine ⟨fun k hk => h.mem k (mem_filter.mp hk).left, fun k hk => ?_⟩
    have ⟨hk, hn⟩ := mem_filter.mp hk
    exact (h.tail hk).resolve_left (by simpa using hn)

theorem next (h : Due defined out (stmt :: stmts)) (hs : SsaFrom defined (stmt :: stmts)) :
    Due defined (nextOutstanding out stmt stmts) stmts := by
  obtain ⟨result, addr, value, size, rfl⟩ | ⟨_, ho, _, hn⟩ := stmt_cases stmt
  case inl => exact h.next_storeMem (hs.operands_mem (by simp [Op.operandRefs]))
  case inr =>
    rw [hn]
    refine ⟨h.mem, fun k hk => ?_⟩
    have := h.overwritten k hk
    rw [ho, Bool.and_eq_true] at this
    exact this.right

end Due

-- Two memories agree outside of the outstanding stores.
def AgreeOff (out : Outstanding) (env : Env) (m m' : Memory) : Prop :=
  ∀ a, (∀ k ∈ out, ¬Covers (env.vals k.1) k.2.bytes a) → m' a = m a

namespace AgreeOff

variable {out : Outstanding} {env : Env} {m m' : Memory} {addr : U64}

theorem eq_of_nil (h : AgreeOff [] env m m') : m' = m :=
  funext fun a => h a nofun

variable (h : AgreeOff out env m m')

include h

theorem congr_env {env' : Env}
    (he : ∀ k ∈ out, env'.vals k.1 = env.vals k.1) : AgreeOff out env' m m' :=
  fun a ha => h a fun k hk => he k hk ▸ ha k hk

theorem loadScalar_eq {size : OpSize}
    (hu : Untouched out env addr size.bytes) : loadScalar m' addr size = loadScalar m addr size :=
  load_congr fun a ha => h a fun k hk => (hu k hk).not_covers ha

theorem loadVector_eq (hu : Untouched out env addr 16) :
    loadVector m' addr = loadVector m addr :=
  load_congr fun a ha => h a fun k hk => (hu k hk).not_covers ha

theorem gather_result_eq {g : Gather} {prev : U128}
    (hu : ∀ e ∈ g.elements, Untouched out env e.2 g.elemSize.bytes) :
    g.result m' prev = g.result m prev :=
  foldl_ext _ _ _ fun dst ⟨d, addr⟩ he => by simp only [h.loadScalar_eq (hu (d, addr) he)]

theorem storeVector (value : U128) :
    AgreeOff out env (storeVector m addr value) (storeVector m' addr value) :=
  fun a ha => store_congr fun _ => h a ha

theorem storeScalar (value : U64) :
    AgreeOff (out.filter (· ≠ (r, size))) env (storeScalar m (env.vals r) value size)
      (storeScalar m' (env.vals r) value size) := by
  intro a ha
  refine store_congr fun hn => h a fun k hk => ?_
  by_cases he : k = (r, size)
  case pos =>
    rw [he]
    exact hn
  case neg => exact ha k (mem_filter.mpr ⟨hk, by simpa using he⟩)

theorem dropped (value : U64) :
    AgreeOff ((r, size) :: out) env (Prisma.storeScalar m (env.vals r) value size) m' := by
  intro a ha
  have ⟨hn, ha⟩ := forall_mem_cons.mp ha
  rw [Prisma.storeScalar, store_of_not_covers hn, h a ha]

end AgreeOff

-- The relation that the pass keeps: source and target agree on everything but the bytes of the
-- outstanding stores, which are due to be overwritten.
structure Related (sem : OpSemantics) (known : Known) (stmts : List Stmt) (s t : LogState) : Prop where
  rest : known.rest = stmts.tail
  env : t.state.env = s.state.env
  cpu : t.state.cpu = s.state.cpu
  log : t.log = s.log
  mem : AgreeOff known.outstanding s.state.env s.state.mem t.state.mem
  due : ∃ defined, SsaFrom defined stmts ∧ Due defined known.outstanding stmts
  unobserved : Along (memStep sem) (fun known stmt _ => known.next stmt) (Unobserved sem) known stmts
    s.state

namespace Related

variable {sem : OpSemantics} {known : Known} {stmt : Stmt} {stmts : List Stmt} {s t : LogState}

theorem eq_of_nil (h : Related sem known stmts s t) (hn : known.outstanding = []) : t = s := by
  have hm := h.mem
  rw [hn] at hm
  have ⟨⟨env, cpu, mem⟩, log⟩ := s
  have ⟨⟨env', cpu', mem'⟩, log'⟩ := t
  obtain rfl := h.env
  obtain rfl := h.cpu
  obtain rfl := h.log
  obtain rfl := hm.eq_of_nil
  rfl

theorem logStep_next (h : memStep sem stmt s.state = .next state) :
    logStep sem stmt s = .next ⟨state, s.log ++ loaded stmt.op s.state⟩ := by
  simp [logStep, h]

theorem logStep_halt (h : memStep sem stmt s.state = .halt o) :
    logStep sem stmt s = .halt (o, s.log ++ loaded stmt.op s.state) := by
  simp [logStep, h]

variable (h : Related sem known (stmt :: stmts) s t)

include h

theorem next {s' : MemState} {t' : LogState}
    (hs : memStep sem stmt s.state = .next s') (he : t'.state.env = s'.env)
    (hc : t'.state.cpu = s'.cpu) (hl : t'.log = s.log ++ loaded stmt.op s.state)
    (hm : AgreeOff (known.next stmt).outstanding s.state.env s'.mem t'.state.mem) :
    Related sem (known.next stmt) stmts ⟨s', s.log ++ loaded stmt.op s.state⟩ t' := by
  have ⟨defined, hssa, hd⟩ := h.due
  have hr : known.rest = stmts := h.rest
  have hd : Due defined (known.next stmt).outstanding stmts := by
    simpa only [Known.next, hr] using hd.next hssa
  refine ⟨by simp [Known.next, hr], he, hc, hl, ?_, ⟨_, hssa.tail, hd.weaken _⟩, h.unobserved.tail hs⟩
  refine hm.congr_env fun k hk => (memStep_frame hs).vals k.1 fun hf => ?_
  exact hssa.defs_not_mem hf (hd.mem k hk)

theorem step_of_nil (hn : known.outstanding = []) :
    Matches (logStep sem) (·.1.outcome.supported) (Related sem (known.next stmt) stmts) (some stmt) t
      (logStep sem stmt s) := by
  obtain rfl := h.eq_of_nil hn
  refine .refl fun s' hs => ?_
  cases hm : memStep sem stmt t.state
  case next state =>
    rw [logStep_next hm] at hs
    cases hs
    exact h.next hm rfl rfl rfl fun _ _ => rfl
  all_goals simp [logStep, hm] at hs

theorem step_next
    (hs : memStep sem stmt s.state = .next s') (ht : memStep sem stmt t.state = .next t')
    (he : t'.env = s'.env) (hc : t'.cpu = s'.cpu)
    (hl : loaded stmt.op t.state = loaded stmt.op s.state)
    (hm : AgreeOff (known.next stmt).outstanding s.state.env s'.mem t'.mem) :
    Matches (logStep sem) (·.1.outcome.supported) (Related sem (known.next stmt) stmts) (some stmt) t
      (logStep sem stmt s) := by
  rw [logStep_next hs]
  refine ⟨⟨t', t.log ++ loaded stmt.op t.state⟩, ?_, h.next hs he hc ?_ hm⟩
  case refine_1 => rw [Option.toList_some, exec_singleton, logStep_next ht]
  case refine_2 => simp only [h.log, hl]

theorem step_of_not_accessesMemory
    (ha : stmt.op.accessesMemory = false) :
    Matches (logStep sem) (·.1.outcome.supported) (Related sem (known.next stmt) stmts) (some stmt) t
      (logStep sem stmt s) := by
  have hs : memStep sem stmt s.state = _ := memStep_of_not_accessesMemory ha
  have ht : memStep sem stmt t.state = _ := memStep_of_not_accessesMemory ha
  have hl (s : MemState) : loaded stmt.op s = [] := loaded_of_not_accessesMemory ha
  rw [h.env, h.cpu] at ht
  cases he : sem.evalOp stmt.op stmt.result.isSome s.state.env s.state.cpu
  case next r =>
    simp only [he] at hs ht
    refine h.step_next hs ht rfl rfl (by rw [hl, hl]) ?_
    obtain ⟨result, addr, value, size, rfl⟩ | ⟨_, _, _, hn⟩ := stmt_cases stmt
    case inl => cases ha
    case inr =>
      simp only [Known.next, hn]
      exact h.mem
  case halt r =>
    simp only [he] at hs ht
    rw [logStep_halt hs]
    intro hg
    obtain rfl := h.eq_of_nil (h.unobserved.head.exits _ hs hg)
    rw [Option.toList_some, exec_singleton, logStep_halt hs]
  case panic => simp only [logStep, hs, he, Matches]

theorem step_dead (hd : isDead stmt stmts) :
    Matches (logStep sem) (·.1.outcome.supported) (Related sem (known.next stmt) stmts) none t
      (logStep sem stmt s) := by
  obtain ⟨result, addr, value, size, rfl⟩ | ⟨_, _, hn, _⟩ := stmt_cases stmt
  case inl =>
    have hr : known.rest = stmts := h.rest
    rw [logStep_next rfl]
    refine ⟨t, rfl, h.next rfl h.env h.cpu (by rw [h.log]; exact (append_nil _).symm) ?_⟩
    simp only [Known.next, nextOutstanding, hr, if_pos hd]
    exact h.mem.dropped _
  case inr => simp [hn] at hd

theorem step_kept (hd : isDead stmt stmts = false) :
    Matches (logStep sem) (·.1.outcome.supported) (Related sem (known.next stmt) stmts) (some stmt) t
      (logStep sem stmt s) := by
  have ⟨defined, hssa, hdue⟩ := h.due
  have ⟨result, op⟩ := stmt
  cases ha : op.accessesMemory
  case false => exact h.step_of_not_accessesMemory ha
  case true =>
    cases op
    case loadMem | loadMemTSO | storeMemTSO | atomicCmpxchg | atomicCmpxchgPair | fence =>
      exact h.step_of_nil (hdue.eq_nil_of_clears rfl)
    case repStos | repMovs => exact h.step_of_nil (h.unobserved.head.exits _ rfl rfl)
    case storeMem addr value size =>
      have hr : known.rest = stmts := h.rest
      refine h.step_next rfl rfl h.env h.cpu rfl ?_
      simp only [Known.next, nextOutstanding, hr, hd, Bool.false_eq_true, if_false, h.env]
      exact h.mem.storeScalar _
    case storeVec addr value =>
      refine h.step_next rfl rfl h.env h.cpu rfl ?_
      simp only [h.env]
      exact h.mem.storeVector _
    case loadVec addr =>
      have hu : Untouched known.outstanding s.state.env (s.state.env.vals addr) 16 :=
        h.unobserved.head.reads
      have hv := h.mem.loadVector_eq hu
      refine h.step_next rfl rfl ?_ h.cpu ?_ h.mem
      case refine_1 => simp only [MemState.define, h.env, hv]
      case refine_2 => simp only [loaded, h.env, hv]
    case vecGather base index mask prev scaleShift elemIs64 indexIs64 laneCount destLaneBase
        indexLaneBase =>
      have hu := h.unobserved.head.reads
      simp only [ReadsUntouched] at hu
      refine h.step_next rfl rfl ?_ h.cpu ?_ h.mem
      case refine_1 => simp only [MemState.define, h.env, h.mem.gather_result_eq hu]
      case refine_2 =>
        simp only [loaded, h.env]
        exact map_congr_left fun e he => by rw [h.mem.loadScalar_eq (hu e he)]
    all_goals cases ha

end Related

-- The pass as one that goes forward and knows what follows.
def dropStmt (known : Known) (stmt : Stmt) : Known × Option Stmt :=
  (known.next stmt, if isDead stmt known.rest then none else some stmt)

theorem keptStmts_eq_rewrite (stmts : List Stmt) (out : Outstanding) :
    keptStmts stmts = rewrite dropStmt ⟨stmts.tail, out⟩ stmts := by
  induction stmts generalizing out
  case nil => rfl
  case cons stmt stmts hi =>
    rw [rewrite_cons, keptStmts, hi (nextOutstanding out stmt stmts)]
    cases hd : isDead stmt stmts <;> simp [dropStmt, Known.next, hd]

theorem Related.step (h : Related sem known (stmt :: stmts) s t) :
    Matches (logStep sem) (·.1.outcome.supported) (Related sem (dropStmt known stmt).1 stmts)
      (dropStmt known stmt).2 t (logStep sem stmt s) := by
  have hr : known.rest = stmts := h.rest
  simp only [dropStmt, hr]
  cases hd : isDead stmt stmts
  case false => exact h.step_kept hd
  case true => exact h.step_dead hd

section Blocks

variable {a w v₁ v₂ c : U64} {size : OpSize} {regs : GuestRegs} {mem : Memory}

-- Stores to `a`, loads a vector from `w` and stores to `a` again.
def loadBlock (a w v₁ v₂ : U64) (size : OpSize) : List Stmt :=
  [⟨some 0, .constant a .i64⟩, ⟨some 1, .constant w .i64⟩, ⟨some 2, .constant v₁ .i64⟩,
    ⟨some 3, .constant v₂ .i64⟩, ⟨none, .storeMem 0 2 size⟩, ⟨some 4, .loadVec 1⟩,
    ⟨none, .storeMem 0 3 size⟩]

-- Stores to `a`, traps if `c` is not zero and stores to `a` again.
def trapBlock (a c v₁ v₂ : U64) (size : OpSize) : List Stmt :=
  [⟨some 0, .constant a .i64⟩, ⟨some 1, .constant c .i64⟩, ⟨some 2, .constant v₁ .i64⟩,
    ⟨some 3, .constant v₂ .i64⟩, ⟨none, .storeMem 0 2 size⟩, ⟨none, .trapIf 1 .sigfpe⟩,
    ⟨none, .storeMem 0 3 size⟩]

attribute [local simp] observe run logStep loaded MemState.define Env.define MemState.entry Cpu.entry
  MemState.fallthrough Step.outcome deadStoreEliminate eliminate_eq keptStmts isDead overwritten clears

theorem observe_loadBlock : observe .interp (loadBlock a w v₁ v₂ size) regs mem = some
    (⟨.fallthrough, regs, storeScalar (storeScalar mem a v₁ size) a v₂ size⟩,
      [loadVector (storeScalar mem a v₁ size) w]) := by
  simp -implicitDefEqProofs [loadBlock]

theorem observe_loadBlock_eliminated :
    observe .interp (deadStoreEliminate (.single (loadBlock a w v₁ v₂ size))).stmts regs mem = some
    (⟨.fallthrough, regs, storeScalar mem a v₂ size⟩, [loadVector mem w]) := by
  simp -implicitDefEqProofs [loadBlock]

theorem observe_trapBlock : observe .interp (trapBlock a c v₁ v₂ size) regs mem = some
    (if c ≠ 0 then ⟨.trap .sigfpe, regs, storeScalar mem a v₁ size⟩
      else ⟨.fallthrough, regs, storeScalar (storeScalar mem a v₁ size) a v₂ size⟩, []) := by
  by_cases hc : c = 0#64
  all_goals simp -implicitDefEqProofs [trapBlock, hc]

theorem observe_trapBlock_eliminated :
    observe .interp (deadStoreEliminate (.single (trapBlock a c v₁ v₂ size))).stmts regs mem = some
    (if c ≠ 0 then ⟨.trap .sigfpe, regs, mem⟩
      else ⟨.fallthrough, regs, storeScalar mem a v₂ size⟩, []) := by
  by_cases hc : c = 0#64
  all_goals simp -implicitDefEqProofs [trapBlock, hc]

theorem storeScalar_storeScalar :
    storeScalar (storeScalar mem a v₁ size) a v₂ size = storeScalar mem a v₂ size :=
  funext fun _ => store_congr fun h => store_of_not_covers h

theorem ones (i : Nat) (h : i < 8 * size.bytes) : (BitVec.allOnes 64).getLsbD i = true := by
  have := size.bytes_le
  rw [BitVec.getLsbD_allOnes, decide_eq_true_eq]
  omega

-- The condition of the pass cannot be weakened: loading the vector shows the store if the ranges are
-- not apart.
theorem loadBlock_preserved_iff :
    (∀ v₁ v₂ mem, observe .interp (deadStoreEliminate (.single (loadBlock a w v₁ v₂ size))).stmts
      regs mem = observe .interp (loadBlock a w v₁ v₂ size) regs mem) ↔ Apart w 16 a size.bytes := by
  simp only [observe_loadBlock, observe_loadBlock_eliminated, storeScalar_storeScalar,
    Option.some.injEq, Prod.mk.injEq, true_and, List.cons.injEq, and_true]
  constructor
  case mp =>
    intro h
    by_contra ha
    exact load_store_ones_ne (by decide) size.bytes_pos (by decide) ones ha (h _ 0 _).symm
  case mpr =>
    intro ha v₁ v₂ mem
    rw [loadVector, loadVector, storeScalar, load_store_of_apart ha]

theorem trapBlock_preserved_iff :
    (∀ v₁ v₂ mem, observe .interp (deadStoreEliminate (.single (trapBlock a c v₁ v₂ size))).stmts
      regs mem = observe .interp (trapBlock a c v₁ v₂ size) regs mem) ↔ c = 0 := by
  simp only [observe_trapBlock, observe_trapBlock_eliminated, storeScalar_storeScalar]
  constructor
  case mp =>
    intro h
    by_contra hc
    have h := h (BitVec.allOnes 64) 0 fun _ => 0
    simp only [if_pos hc, Option.some.injEq, Prod.mk.injEq, MemOutcome.mk.injEq, true_and,
      and_true] at h
    have ha : Covers a size.bytes a := by simpa [Covers] using size.bytes_pos
    have h := congrFun h a
    rw [storeScalar, store_of_covers_of_ones ones ha] at h
    contradiction
  case mpr =>
    intro hc v₁ v₂ mem
    simp [hc]

end Blocks

-- In every run that does not observe a dropped store, all loads have the same values, and the block
-- ends in the same way, with the same registers and memory.
theorem deadStoreEliminate_preserves {sem : OpSemantics} {stmts : List Stmt} {regs : GuestRegs}
    {mem : Memory} {o : MemOutcome × List U128} (hs : Ssa stmts)
    (ho : observe sem stmts regs mem = some o) (hg : o.1.outcome.supported)
    (hu : StoresUnobserved sem stmts regs mem) :
    observe sem (deadStoreEliminate (.single stmts)).stmts regs mem = some o := by
  rw [deadStoreEliminate, Function.stmts_mapBlocks_single, eliminate_eq, keptStmts_eq_rewrite stmts []]
  refine run_rewrite (G := (·.1.outcome.supported)) (R := Related sem) ?nil ?cons
    ⟨rfl, rfl, rfl, rfl, fun _ _ => rfl, ⟨_, hs, nofun, nofun⟩, hu⟩ ho hg
  case nil =>
    intro known s t h
    have ⟨_, _, hd⟩ := h.due
    rw [h.eq_of_nil hd.eq_nil]
  case cons =>
    intro known stmt stmts s t h
    exact h.step

theorem deadStoreEliminate_preserves_loadBlock :
    StoresUnobserved .interp (loadBlock 0x1000 0x1008 1 2 .i64) .default (fun _ => 0) ∧
    (observe .interp (deadStoreEliminate (.single (loadBlock 0x1000 0x1008 1 2 .i64))).stmts .default
      fun _ => 0).isSome := by
  have h : StoresUnobserved .interp (loadBlock 0x1000 0x1008 1 2 .i64) .default (fun _ => 0) := by
    refine .cons (.of_next trivial rfl) rfl (.cons (.of_next trivial rfl) rfl ?_)
    refine .cons (.of_next trivial rfl) rfl (.cons (.of_next trivial rfl) rfl ?_)
    refine .cons (.of_next trivial rfl) rfl (.cons (.of_next ?_ rfl) rfl ?_)
    case refine_1 =>
      exact forall_mem_singleton.mpr (show Apart 0x1008 16 0x1000 8 by decide)
    case refine_2 => exact .cons (.of_next trivial rfl) rfl trivial
  refine ⟨h, ?_⟩
  rw [deadStoreEliminate_preserves (by decide) observe_loadBlock rfl h]
  rfl

theorem deadStoreEliminate_not_preserves :
    Ssa (trapBlock 0x1000 1 0xff 0 .i8) ∧
    ((observe .interp (trapBlock 0x1000 1 0xff 0 .i8) .default fun _ => 0).map
      fun o => (o.1.outcome, o.1.mem 0x1000)) = some (.trap .sigfpe, 0xff) ∧
    ((observe .interp (deadStoreEliminate (.single (trapBlock 0x1000 1 0xff 0 .i8))).stmts .default
      fun _ => 0).map fun o => (o.1.outcome, o.1.mem 0x1000)) = some (.trap .sigfpe, 0) := by
  rw [observe_trapBlock, observe_trapBlock_eliminated]
  decide +kernel

end Prisma.DeadStore
