import Mathlib.Algebra.Order.BigOperators.Group.List
import Mathlib.Algebra.Order.Monoid.Canonical.Defs
import Mathlib.Algebra.Order.Ring.Nat
import Mathlib.Data.List.AList
import Mathlib.Data.List.MinMax

-- Hash tables as association lists. Nothing is known about the order of a hash table, so that an
-- operation that walks over one takes the order as a parameter.

-- An order in which a table is walked.
structure Walk (α : Type) where
  order : List α → List α
  perm : ∀ l, (order l).Perm l

namespace Walk

variable {α : Type}

def stored : Walk α :=
  ⟨id, .refl⟩

theorem mem_order {walk : Walk α} : a ∈ walk.order l ↔ a ∈ l :=
  (walk.perm l).mem_iff

end Walk

namespace AList

section Keys

variable {α : Type} {β : α → Type} {s : AList β}

def size (s : AList β) : Nat :=
  s.entries.length

def filterKeys (p : α → Bool) (s : AList β) : AList β :=
  ⟨s.entries.filter (p ·.1), s.nodupKeys.sublist List.filter_sublist⟩

def map {γ : α → Type} (f : ∀ a, β a → γ a) (s : AList β) : AList γ :=
  ⟨s.entries.map fun x => ⟨x.1, f x.1 x.2⟩, .map₂ f _ s.nodupKeys⟩

-- The values together with their positions in the order of the table.
def mapIdx (f : Nat → ∀ a, β a → β a) (s : AList β) : AList β where
  entries := s.entries.mapIdx fun i x => ⟨x.1, f i x.1 x.2⟩
  nodupKeys := by
    have hk : (s.entries.mapIdx fun i x => (⟨x.1, f i x.1 x.2⟩ : Sigma β)).keys = s.keys :=
      List.ext_getElem? fun i => by simp [List.keys, keys, Function.comp_def]
    rw [List.NodupKeys, hk]
    exact s.keys_nodup

def reorder (walk : Walk (Sigma β)) (s : AList β) : AList β :=
  ⟨walk.order s.entries, (List.perm_nodupKeys (walk.perm _)).mpr s.nodupKeys⟩

theorem size_map {γ : α → Type} (f : ∀ a, β a → γ a) : (s.map f).size = s.size :=
  List.length_map ..

theorem keys_mapIdx (f : Nat → ∀ a, β a → β a) : (s.mapIdx f).keys = s.keys :=
  List.ext_getElem? fun i => by simp [List.keys, keys, mapIdx, Function.comp_def]

theorem mem_mapIdx (f : Nat → ∀ a, β a → β a) : a ∈ s.mapIdx f ↔ a ∈ s := by
  rw [mem_keys, keys_mapIdx, mem_keys]

theorem size_mapIdx (f : Nat → ∀ a, β a → β a) : (s.mapIdx f).size = s.size :=
  List.length_mapIdx

theorem size_reorder (walk : Walk (Sigma β)) : (s.reorder walk).size = s.size :=
  (walk.perm _).length_eq

variable [DecidableEq α] {a b : α}

theorem lookup_eq_some : lookup a s = some v ↔ ⟨a, v⟩ ∈ s.entries :=
  mem_lookup_iff

theorem lookup_filterKeys (p : α → Bool) :
    lookup a (s.filterKeys p) = if p a then lookup a s else none := by
  refine Option.ext fun v => ?_
  split
  case isTrue h => simp [lookup_eq_some, filterKeys, h]
  case isFalse h => simp [lookup_eq_some, filterKeys, h]

theorem lookup_map {γ : α → Type} (f : ∀ a, β a → γ a) :
    lookup a (s.map f) = (lookup a s).map (f a) :=
  List.dlookup_map₂ a

theorem map_insert {γ : α → Type} (f : ∀ a, β a → γ a) (v : β a) :
    (s.insert a v).map f = (s.map f).insert a (f a v) := by
  refine ext ?_
  simp only [map, insert, List.kinsert_def, List.map_cons, List.kerase, List.eraseP_map]
  rfl

theorem lookup_mapIdx_eq_some :
    lookup a (s.mapIdx f) = some v ↔ ∃ i w, s.entries[i]? = some ⟨a, w⟩ ∧ f i a w = v := by
  rw [lookup_eq_some, mapIdx, List.mem_iff_getElem?]
  refine exists_congr fun i => ?_
  rw [List.getElem?_mapIdx, Option.map_eq_some_iff]
  constructor
  case mp => rintro ⟨⟨b, w⟩, hi, he⟩; cases he; exact ⟨w, hi, rfl⟩
  case mpr => rintro ⟨w, hi, rfl⟩; exact ⟨_, hi, rfl⟩

theorem lookup_reorder (walk : Walk (Sigma β)) : lookup a (s.reorder walk) = lookup a s :=
  perm_lookup (walk.perm _)

theorem erase_of_notMem (h : a ∉ s) : s.erase a = s :=
  ext (List.kerase_of_notMem_keys h)

theorem size_erase_of_mem (h : a ∈ s) : (s.erase a).size + 1 = s.size := by
  have hk : (s.erase a).keys.length + 1 = s.keys.length := by
    rw [keys_erase, List.length_erase_add_one (mem_keys.mp h)]
  simpa [keys, size, List.keys] using hk

theorem size_insert_of_mem (v : β a) (h : a ∈ s) : (s.insert a v).size = s.size :=
  size_erase_of_mem h

end Keys

section Values

variable {α β : Type} [DecidableEq α] {s : AList fun _ : α => β} {a b : α}

theorem lookup_insert_eq_ite (v : β) :
    lookup a (s.insert b v) = if a = b then some v else lookup a s := by
  split
  case isTrue h => subst h; exact lookup_insert s
  case isFalse h => exact lookup_insert_ne h

theorem lookup_erase_eq_ite : lookup a (s.erase b) = if a = b then none else lookup a s := by
  split
  case isTrue h => subst h; exact lookup_erase a s
  case isFalse h => exact lookup_erase_ne h

section Fold

variable {ι : Type} {l : List ι} {f : ι → α} {g : ι → β}

theorem lookup_foldl_insert_of_notMem (h : ∀ i ∈ l, f i ≠ a) :
    lookup a (l.foldl (fun s i => s.insert (f i) (g i)) s) = lookup a s := by
  induction l generalizing s with
  | nil => rfl
  | cons i l hi =>
    have ⟨hf, hl⟩ := List.forall_mem_cons.mp h
    rw [List.foldl_cons, hi hl, lookup_insert_ne hf.symm]

theorem lookup_foldl_insert_of_mem (h : ∀ i ∈ l, f i = a → g i = v) (hm : a ∈ l.map f) :
    lookup a (l.foldl (fun s i => s.insert (f i) (g i)) s) = some v := by
  induction l generalizing s with
  | nil => cases hm
  | cons i l hi =>
    have ⟨hv, hl⟩ := List.forall_mem_cons.mp h
    by_cases hm' : a ∈ l.map f
    case pos => exact hi hl hm'
    case neg =>
      have ha : a = f i := (List.mem_cons.mp hm).resolve_right hm'
      subst ha
      rw [List.foldl_cons, lookup_foldl_insert_of_notMem, lookup_insert, hv rfl]
      exact fun j hj ha => hm' (List.mem_map.mpr ⟨j, hj, ha⟩)

end Fold

end Values

section Weight

variable {α : Type} {β : α → Type} {s : AList β} {f : Sigma β → Nat}

-- The sum of a measure over the table.
def weight (f : Sigma β → Nat) (s : AList β) : Nat :=
  (s.entries.map f).sum

theorem weight_le_of_sublist {s' : AList β} (h : s'.entries.Sublist s.entries) :
    s'.weight f ≤ s.weight f :=
  (h.map f).sum_le_sum fun _ _ => Nat.zero_le _

theorem weight_map {γ : α → Type} {g : Sigma γ → Nat} (h : ∀ a, β a → γ a) :
    (s.map h).weight g = s.weight fun x => g ⟨x.1, h x.1 x.2⟩ := by
  rw [weight, map, List.map_map]
  rfl

theorem weight_mapIdx (h : ∀ i a v, f ⟨a, g i a v⟩ = f ⟨a, v⟩) :
    (s.mapIdx g).weight f = s.weight f := by
  refine congrArg List.sum (List.ext_getElem? fun i => ?_)
  simp [mapIdx, Function.comp_def, h]

theorem weight_reorder (walk : Walk (Sigma β)) : (s.reorder walk).weight f = s.weight f :=
  ((walk.perm _).map f).sum_eq

variable [DecidableEq α] {a : α}

theorem weight_insert (v : β a) : (s.insert a v).weight f = f ⟨a, v⟩ + (s.erase a).weight f :=
  rfl

theorem weight_eq_add_erase (h : lookup a s = some v) :
    s.weight f = f ⟨a, v⟩ + (s.erase a).weight f := by
  have hm := lookup_eq_some.mp h
  have ⟨w, l₁, l₂, _, hs, he⟩ := List.exists_of_kerase (List.mem_keys_of_mem hm)
  have hw : w = v := s.nodupKeys.eq_of_mk_mem (by simp [hs]) hm
  have he : (s.erase a).entries = l₁ ++ l₂ := he
  simp only [weight, hs, he, hw, List.map_append, List.map_cons, List.sum_append, List.sum_cons]
  omega

end Weight

end AList
