import Prisma.Runtime.GuestSignal

-- Signals from the time they are raised to their delivery.

namespace Prisma

open List

inductive SignalCall
  | raise (sig : U32)
  | setMask (how : SigprocmaskHow) (set : Sigset)
  | nextDeliverable

-- What a call delivers, and the state after it.
def SignalCall.apply (state : SignalState) : SignalCall → Option U32 × SignalState
  | raise sig => (none, state.raise sig)
  | setMask how arg => (none, state.setMask how arg)
  | nextDeliverable => state.nextDeliverable

-- The signals that have been raised are numbered in their order.
structure SignalLog where
  raised : List U32
  delivered : List Nat
  masks : List (SigprocmaskHow × Sigset)

namespace SignalLog

variable (log : SignalLog)

def signal (n : Nat) : U32 :=
  log.raised.getD n 0

def pending : List Nat :=
  (range log.raised.length).filter (· ∉ log.delivered)

-- The mask after all changes.
def mask : Sigset :=
  log.masks.foldl (fun set change => set.apply change.1 change.2) .empty

-- The earliest one of the pending signals that are not blocked.
def next (blocked : Sigset) : Option Nat :=
  log.pending.find? fun n => !blocked.contains (log.signal n)

def after (blocked : Sigset) : SignalCall → SignalLog
  | .raise sig => { log with raised := log.raised ++ [sig] }
  | .setMask how arg => { log with masks := log.masks ++ [(how, arg)] }
  | .nextDeliverable => { log with delivered := log.delivered ++ (log.next blocked).toList }

end SignalLog

namespace SignalState

-- The states that calls lead to, with what they have delivered and the log.
inductive Logged : SignalState → List U32 → SignalLog → Prop
  | new : Logged .new [] ⟨[], [], []⟩
  | call {s out log} (h : Logged s out log) (call : SignalCall) :
    Logged (call.apply s).2 (out ++ (call.apply s).1.toList) (log.after s.blocked call)

variable {s : SignalState} {out : List U32} {log : SignalLog}

structure Accounts (s : SignalState) (out : List U32) (log : SignalLog) : Prop where
  pending : s.pending = log.pending.map log.signal
  delivered : out = log.delivered.map log.signal
  nodup : log.delivered.Nodup
  raised : ∀ n ∈ log.delivered, n < log.raised.length
  mask : s.blocked = log.mask
  kill : s.blocked.contains sigkill = false
  stop : s.blocked.contains sigstop = false

theorem Accounts.raise (h : Accounts s out log) (sig : U32) :
    Accounts (s.raise sig) out (log.after s.blocked (.raise sig)) := by
  have hlast : log.raised.length ∉ log.delivered := fun hm => (h.raised _ hm).false
  have hp : (log.after s.blocked (.raise sig)).pending = log.pending ++ [log.raised.length] := by
    rw [SignalLog.pending, SignalLog.after, length_append, length_singleton, range_succ,
      filter_append, filter_singleton]
    simp [SignalLog.pending, hlast]
  have hl : (log.after s.blocked (.raise sig)).signal log.raised.length = sig := by
    simp [SignalLog.signal, SignalLog.after]
  have hs : ∀ n < log.raised.length,
      log.signal n = (log.after s.blocked (.raise sig)).signal n := fun n hlt => by
    simp [SignalLog.signal, SignalLog.after, getElem?_append_left hlt]
  refine ⟨?_, ?_, h.nodup, fun n hn => ?_, h.mask, h.kill, h.stop⟩
  · rw [hp, map_append, map_singleton, hl]
    refine congrArg (· ++ [sig]) (h.pending.trans (map_congr_left fun n hn => hs n ?_))
    exact mem_range.mp (mem_of_mem_filter hn)
  · exact h.delivered.trans (map_congr_left fun n hn => hs n (h.raised n hn))
  · have := h.raised n hn
    simp only [SignalLog.after, length_append]
    omega

theorem contains_apply (set arg : Sigset) (how : SigprocmaskHow) :
    (set.apply how arg).contains sigkill = false ∧ (set.apply how arg).contains sigstop = false := by
  have hk : Sigset.bit sigkill = some 0x100 := rfl
  have hs : Sigset.bit sigstop = some 0x40000 := rfl
  have hz : ∀ x m k : U64, m &&& k = k → x &&& ~~~m &&& k = 0 := fun x m k h => by
    rw [← h, BitVec.and_assoc, ← BitVec.and_assoc (~~~m), BitVec.not_and_self]
    simp
  simp only [Sigset.contains, Sigset.apply, hk, hs, bne_eq_false_iff_eq]
  exact ⟨hz _ _ _ (by decide), hz _ _ _ (by decide)⟩

theorem Accounts.nextDeliverable (h : Accounts s out log) :
    s.nextDeliverable.1 = (log.next s.blocked).map log.signal ∧
      Accounts s.nextDeliverable.2 (out ++ s.nextDeliverable.1.toList)
        (log.after s.blocked .nextDeliverable) := by
  have hfind := findIdx?_map (f := log.signal) (p := (!s.blocked.contains ·)) (l := log.pending)
  rw [← h.pending] at hfind
  rw [SignalState.nextDeliverable, SignalLog.after, hfind]
  cases hn : log.next s.blocked with
  | none =>
    have hi := find?_eq_none.mp hn
    rw [findIdx?_eq_none_iff.mpr fun n hn => by simpa using hi n hn]
    simpa using h
  | some n =>
    obtain ⟨hq, as, bs, hp, has⟩ := find?_eq_some_iff_append.mp hn
    have hnd : (as ++ n :: bs).Nodup := hp ▸ nodup_range.filter _
    have hmem := (nodup_cons.mp (nodup_middle.mp hnd)).left
    have hm : n ∈ log.pending := by simp [hp]
    obtain ⟨hlt, hnew⟩ : n < log.raised.length ∧ n ∉ log.delivered := by
      simpa [SignalLog.pending] using hm
    have hi : log.pending.findIdx? ((!s.blocked.contains ·) ∘ log.signal) = some as.length := by
      rw [hp, findIdx?_append, findIdx?_eq_none_iff.mpr fun n hn => by simpa using has n hn,
        findIdx?_cons]
      simp_all
    have hp' : SignalLog.pending { log with delivered := log.delivered ++ [n] } = as ++ bs := by
      have hf : SignalLog.pending { log with delivered := log.delivered ++ [n] } =
          log.pending.filter (· ≠ n) := by
        simp only [SignalLog.pending, filter_filter, mem_append, mem_singleton, not_or,
          Bool.decide_and, Bool.and_comm]
      rw [mem_append, not_or] at hmem
      rw [hf, hp, filter_append, filter_cons_of_neg (by simp), ← filter_append]
      refine filter_eq_self.mpr fun m hm => ?_
      rw [decide_eq_true_eq]
      rintro rfl
      simp_all
    rw [hi, h.pending, hp, Option.toList_some]
    refine ⟨by simp, ?_, ?_, ?_, ?_, h.mask, h.kill, h.stop⟩
    · simp only [hp', map_append, map_cons]
      rw [eraseIdx_append_of_length_le (by simp)]
      simp
      rfl
    · simp [h.delivered, SignalLog.signal]
    · refine nodup_append.mpr ⟨h.nodup, nodup_singleton n, ?_⟩
      rintro m hm k hk rfl
      exact hnew (mem_singleton.mp hk ▸ hm)
    · intro m hm
      cases mem_append.mp hm with
      | inl hm => exact h.raised m hm
      | inr hm => exact mem_singleton.mp hm ▸ hlt

theorem accounts (h : Logged s out log) : Accounts s out log := by
  induction h with
  | new => exact ⟨rfl, rfl, nodup_nil, by simp, rfl, rfl, rfl⟩
  | call _ call hi =>
    cases call with
    | raise sig => simpa [SignalCall.apply] using hi.raise sig
    | setMask how arg =>
      obtain ⟨hk, hs⟩ := contains_apply _ arg how
      refine ⟨hi.pending, (append_nil _).trans hi.delivered, hi.nodup, hi.raised, ?_, hk, hs⟩
      simp [SignalCall.apply, setMask, SignalLog.after, SignalLog.mask, hi.mask]
    | nextDeliverable => exact hi.nextDeliverable.right

-- The delivered signals and the pending ones are those that have been raised. The next delivery is
-- the earliest pending signal that is not blocked by the changes of the mask up to then, and two
-- signals are never blocked.
theorem delivers (h : Logged s out log) :
    (out ++ s.pending).Perm log.raised ∧
    s.pending = log.pending.map log.signal ∧ out = log.delivered.map log.signal ∧
    s.nextDeliverable.1 = (log.next s.blocked).map log.signal ∧ s.blocked = log.mask ∧
    s.blocked.contains sigkill = false ∧ s.blocked.contains sigstop = false := by
  have ha := accounts h
  refine ⟨?_, ha.pending, ha.delivered, ha.nextDeliverable.left, ha.mask, ha.kill, ha.stop⟩
  have hall : (range log.raised.length).map log.signal = log.raised := by
    refine ext_getElem (by simp) fun n _ hn => ?_
    simp [SignalLog.signal, hn]
  have hp : (log.delivered ++ log.pending).Perm (range log.raised.length) := by
    refine (perm_ext_iff_of_nodup ?_ nodup_range).mpr fun n => ?_
    · refine nodup_append.mpr ⟨ha.nodup, nodup_range.filter _, ?_⟩
      rintro n hn m hm rfl
      simp [SignalLog.pending, hn] at hm
    · have := ha.raised n
      simp [SignalLog.pending]
      tauto
  rw [ha.pending, ha.delivered, ← map_append]
  exact (hp.map _).trans (.of_eq hall)

-- A blocked signal is raised before one that is not.
theorem delivers_second :
    (raise (raise (new.setMask .block ⟨2⟩) 2) 5).nextDeliverable.1 = some 5 :=
  have h := ((Logged.new.call (.setMask .block ⟨2⟩)).call (.raise 2)).call (.raise 5)
  (delivers h).right.right.right.left.trans (by decide)

end SignalState

end Prisma
