import Prisma.Lib.Bits
import Prisma.Orchestrator.InitStack
import Prisma.Orchestrator.Theorems.GuestWrites

namespace Prisma.InitStack

open Extent List BitVec LittleEndian

variable {strings strings' : List (List U8)} {ptrs ptrs' words : List U64} {top mid last addr : U64}
  {s : List U8} {w : GuestWrite}

section Plan

def ending {α : Type} : Option α → Except StackBuildError α
  | some a => .ok a
  | none => .error .underflow

-- The text of a string and the zero behind it are written apart.
def stringWrites (p : U64) (s : List U8) : List GuestWrite :=
  [⟨p, s⟩, ⟨p + BitVec.ofNat 64 s.length, [0]⟩]

-- The writes for as many strings as there is room for above address zero. With room for all of
-- them, also their addresses and the cursor below them.
def stringPlan : List (List U8) → U64 → List GuestWrite × Option (List U64 × U64)
  | [], cursor => ([], some ([], cursor))
  | s :: strings, cursor =>
    if s.length + 1 ≤ cursor.toNat then
      let cursor := cursor - BitVec.ofNat 64 (s.length + 1)
      let rest := stringPlan strings cursor
      (stringWrites cursor s ++ rest.fst,
        rest.snd.map fun (ptrs, last) => (cursor :: ptrs, last))
    else ([], none)

def wordPlan : List U64 → U64 → List GuestWrite
  | [], _ => []
  | v :: words, addr => ⟨addr, LittleEndian.encode 8 v.toNat⟩ :: wordPlan words (addr + 8)

def blockBytes (params : ProcessStackParams) : Nat :=
  (params.argv.length + params.envp.length + 2 * params.auxv.length + 5) * 8

-- All writes for the initial stack in their order, and the stack pointer if there is room for it.
def stackPlan (stackTop : U64) (params : ProcessStackParams) : List GuestWrite × Option U64 :=
  match stringPlan params.argv stackTop with
  | (writes, none) => (writes, none)
  | (writes, some (argvPtrs, cursor)) =>
    match stringPlan params.envp cursor with
    | (writes', none) => (writes ++ writes', none)
    | (writes', some (envpPtrs, cursor)) =>
      if blockBytes params ≤ cursor.toNat then
        let rsp := (cursor - BitVec.ofNat 64 (blockBytes params)) &&& ~~~0xF
        (writes ++ writes' ++ wordPlan (vectorWords params argvPtrs envpPtrs) rsp, some rsp)
      else (writes ++ writes', none)

theorem sub_of_le {n : Nat} (h : n ≤ top.toNat) : sub top n = pure (top - BitVec.ofNat 64 n) :=
  if_pos h

theorem sub_of_lt {n : Nat} (h : ¬n ≤ top.toNat) : sub top n = Stateful.fail .underflow :=
  if_neg h

theorem follows_map {α β : Type} {c : StackBuild α} {f : α → β} {ws : List GuestWrite}
    {o : Option α} (h : Follows .range c ws (ending o)) :
    Follows .range (c >>= fun a => pure (f a)) ws (ending (o.map f)) := by
  cases o with
  | none => exact h.bind_error
  | some a =>
    have hpure : Follows .range (pure (f a) : StackBuild β) [] (.ok (f a)) := .pure
    have hbind : Follows .range (c >>= fun a => pure (f a)) (ws ++ []) _ := .bind h hpure
    rwa [append_nil] at hbind

theorem placeStrings_follows :
    Follows .range (placeStrings strings top) (stringPlan strings top).fst
      (ending (stringPlan strings top).snd) := by
  induction strings generalizing top with
  | nil => exact .pure
  | cons s strings hi =>
    rw [placeStrings, stringPlan]
    split
    case isTrue hle =>
      have hlen : s.length < 2 ^ 64 := by
        have := top.isLt
        omega
      rw [sub_of_le hle, Stateful.pure_bind]
      generalize top - BitVec.ofNat 64 (s.length + 1) = cursor
      refine .store_bind (w := ⟨cursor, s⟩) hlen (.store_bind (w := ⟨_, [0]⟩) (by simp) ?_)
      exact follows_map hi
    case isFalse hlt =>
      rw [sub_of_lt hlt]
      exact .bind_error .fail

theorem putWords_follows : Follows .range (putWords words addr) (wordPlan words addr) (.ok ()) := by
  induction words generalizing addr with
  | nil => exact .pure
  | cons v words hi => exact .store_bind (w := ⟨addr, _⟩) (by simp) hi

theorem buildInitialStack_follows {params : ProcessStackParams} :
    Follows .range (buildInitialStack top params) (stackPlan top params).fst
      (ending (stackPlan top params).snd) := by
  have hargv := @placeStrings_follows params.argv top
  unfold buildInitialStack stackPlan
  generalize stringPlan params.argv top = argv at hargv
  match argv with
  | (writes, none) => exact hargv.bind_error
  | (writes, some (argvPtrs, cursor)) =>
    have henvp := @placeStrings_follows params.envp cursor
    dsimp only
    generalize stringPlan params.envp cursor = envp at henvp
    match envp with
    | (writes', none) => exact hargv.bind henvp.bind_error
    | (writes', some (envpPtrs, cursor)) =>
      have hbytes : (1 + params.argv.length + 1 + params.envp.length + 1 +
          (params.auxv.length + 1) * 2) * 8 = blockBytes params := by
        unfold blockBytes
        omega
      dsimp only
      split
      case isTrue hle =>
        rw [List.append_assoc]
        refine hargv.bind (henvp.bind ?_)
        dsimp only
        rw [hbytes, sub_of_le hle, Stateful.pure_bind]
        exact putWords_follows.bind_pure
      case isFalse hlt =>
        rw [← append_nil writes']
        refine hargv.bind (henvp.bind ?_)
        dsimp only
        rw [hbytes, sub_of_lt hlt]
        exact .bind_error .fail

end Plan

section Layout

-- The strings lie one below the other, each with the zero behind it.
inductive Stacked : List (List U8) → U64 → List U64 → U64 → Prop
  | nil (top : U64) : Stacked [] top [] top
  | cons {s p strings top ptrs last} (hp : p.toNat + s.length + 1 = top.toNat)
    (h : Stacked strings p ptrs last) : Stacked (s :: strings) top (p :: ptrs) last

-- The bytes of the strings with the zeros behind them.
def textBytes (strings : List (List U8)) : Nat :=
  (strings.map (·.length + 1)).sum

@[simp]
theorem textBytes_cons : textBytes (s :: strings) = s.length + 1 + textBytes strings := by
  simp [textBytes]

-- A string as it stands in memory.
def image (p : U64) (s : List U8) : GuestWrite :=
  ⟨p, s ++ [0]⟩

def images (ptrs : List U64) (strings : List (List U8)) : List GuestWrite :=
  List.zipWith image ptrs strings

def allWrites (ptrs : List U64) (strings : List (List U8)) : List GuestWrite :=
  (List.zipWith stringWrites ptrs strings).flatten

-- In `[x, y)`.
def Between (x y : Nat) (w : GuestWrite) : Prop :=
  x ≤ lo w ∧ hi w ≤ y

theorem apart_of_le {a b : GuestWrite} (h : hi b ≤ lo a) : Apart a b := by
  intro x ha hb
  unfold Covers at ha hb
  omega

namespace Stacked

theorem textBytes (h : Stacked strings top ptrs last) :
    last.toNat + textBytes strings = top.toNat := by
  induction h with
  | nil => rfl
  | cons hp _ hi =>
    rw [textBytes_cons]
    omega

theorem le (h : Stacked strings top ptrs last) : last.toNat ≤ top.toNat :=
  h.textBytes ▸ Nat.le_add_right ..

theorem append (h : Stacked strings top ptrs mid) (h' : Stacked strings' mid ptrs' last) :
    Stacked (strings ++ strings') top (ptrs ++ ptrs') last := by
  induction h with
  | nil => exact h'
  | cons hp _ hi => exact .cons hp (hi h')

theorem length (h : Stacked strings top ptrs last) : ptrs.length = strings.length := by
  induction h with
  | nil => rfl
  | cons _ _ hi => rw [length_cons, length_cons, hi]

theorem images_between (h : Stacked strings top ptrs last) :
    ∀ w ∈ images ptrs strings, Between last.toNat top.toNat w := by
  induction h with
  | nil => nofun
  | @cons s p strings top ptrs last hp h hi =>
    have hle := h.le
    have hlen : (s ++ [0]).length = s.length + 1 := length_append
    intro w hw
    cases hw with
    | head => exact ⟨hle, by show p.toNat + (s ++ [0]).length ≤ _; omega⟩
    | tail _ hw =>
      have ⟨hlo, hhi⟩ := hi w hw
      exact ⟨hlo, by omega⟩

theorem images_apart (h : Stacked strings top ptrs last) :
    (images ptrs strings).Pairwise Apart := by
  induction h with
  | nil => exact .nil
  | cons hp h hi =>
    exact .cons (fun w hw => apart_of_le (h.images_between w hw).right) hi

theorem stringWrites_between {p : U64} (hp : p.toNat + s.length < 2 ^ 64)
    (hw : w ∈ stringWrites p s) : Between p.toNat (p.toNat + s.length + 1) w := by
  rw [stringWrites, mem_cons, mem_singleton] at hw
  have hz := AddressSpace.toNat_add_ofNat hp
  cases hw with
  | inl hw => exact hw ▸ ⟨Nat.le_refl _, Nat.le_succ _⟩
  | inr hw =>
    refine hw ▸ ⟨?_, ?_⟩
    · show p.toNat ≤ (p + BitVec.ofNat 64 s.length).toNat
      omega
    · show (p + BitVec.ofNat 64 s.length).toNat + 1 ≤ _
      omega

theorem stringWrites_apart {p : U64} (hp : p.toNat + s.length < 2 ^ 64) :
    (stringWrites p s).Pairwise Apart := by
  have hz := AddressSpace.toNat_add_ofNat hp
  refine pairwise_pair.mpr (Std.Symm.symm _ _ (apart_of_le ?_))
  show p.toNat + s.length ≤ (p + BitVec.ofNat 64 s.length).toNat
  omega

theorem writes_between (h : Stacked strings top ptrs last) :
    ∀ w ∈ allWrites ptrs strings, Between last.toNat top.toNat w := by
  induction h with
  | nil => nofun
  | @cons s p strings top ptrs last hp h hi =>
    have hle := h.le
    have := top.isLt
    intro w hw
    cases mem_append.mp hw with
    | inl hw =>
      have ⟨hlo, hhi⟩ := stringWrites_between (by omega) hw
      exact ⟨by omega, by omega⟩
    | inr hw =>
      have ⟨hlo, hhi⟩ := hi w hw
      exact ⟨hlo, by omega⟩

theorem writes_apart (h : Stacked strings top ptrs last) :
    (allWrites ptrs strings).Pairwise Apart := by
  induction h with
  | nil => exact .nil
  | @cons s p strings top ptrs last hp h hi =>
    have := top.isLt
    refine pairwise_append.mpr ⟨stringWrites_apart (by omega), hi, fun w hw w' hw' => ?_⟩
    have ⟨hlo, _⟩ := stringWrites_between (by omega) hw
    have ⟨_, hhi⟩ := h.writes_between w' hw'
    exact apart_of_le (by omega)

end Stacked

theorem toNat_sub_ofNat (h : n ≤ top.toNat) : (top - BitVec.ofNat 64 n).toNat + n = top.toNat := by
  have := top.isLt
  have hn : (BitVec.ofNat 64 n).toNat = n := Nat.mod_eq_of_lt (by omega)
  rw [toNat_sub_of_le (le_def.mpr (by omega)), hn]
  omega

theorem stringPlan_cases (strings : List (List U8)) (top : U64) :
    (∃ ptrs last, stringPlan strings top = (allWrites ptrs strings, some (ptrs, last)) ∧
      Stacked strings top ptrs last) ∨
    (∃ placed ptrs last, stringPlan strings top = (allWrites ptrs placed, none) ∧
      Stacked placed top ptrs last) ∧ top.toNat < textBytes strings := by
  induction strings generalizing top with
  | nil => exact .inl ⟨[], top, rfl, .nil top⟩
  | cons s strings hi =>
    rw [stringPlan]
    split
    case isTrue hle =>
      have hp := toNat_sub_ofNat hle
      cases hi (top - BitVec.ofNat 64 (s.length + 1)) with
      | inl hall =>
        have ⟨ptrs, last, hplan, h⟩ := hall
        exact .inl ⟨_ :: ptrs, last, by dsimp only; rw [hplan]; rfl, .cons hp h⟩
      | inr hsome =>
        have ⟨⟨placed, ptrs, last, hplan, h⟩, hlt⟩ := hsome
        refine .inr ⟨⟨s :: placed, _ :: ptrs, last, by dsimp only; rw [hplan]; rfl, .cons hp h⟩, ?_⟩
        rw [textBytes_cons]
        omega
    case isFalse hlt =>
      rw [textBytes_cons]
      exact .inr ⟨⟨[], [], top, rfl, .nil top⟩, by omega⟩

theorem stringPlan_append :
    stringPlan (strings ++ strings') top =
      match stringPlan strings top with
      | (writes, none) => (writes, none)
      | (writes, some (ptrs, mid)) => (writes ++ (stringPlan strings' mid).fst,
          (stringPlan strings' mid).snd.map fun (ptrs', last) => (ptrs ++ ptrs', last)) := by
  induction strings generalizing top with
  | nil => simp [stringPlan]
  | cons s strings hi =>
    rw [List.cons_append, stringPlan, stringPlan]
    split
    case isFalse => rfl
    case isTrue =>
      dsimp only
      rw [hi]
      obtain ⟨writes, _ | ⟨ptrs, mid⟩⟩ := stringPlan strings (top - BitVec.ofNat 64 (s.length + 1))
      case none => rfl
      case some => simp [Function.comp_def]

theorem wordPlan_between (h : addr.toNat + 8 * words.length < 2 ^ 64) :
    ∀ w ∈ wordPlan words addr, Between addr.toNat (addr.toNat + 8 * words.length) w := by
  induction words generalizing addr with
  | nil => nofun
  | cons v words hi =>
    rw [length_cons] at h ⊢
    have hnext : (addr + 8).toNat = addr.toNat + 8 :=
      @AddressSpace.toNat_add_ofNat addr 8 (by omega)
    intro w hw
    cases hw with
    | head =>
      refine ⟨Nat.le_refl _, ?_⟩
      show addr.toNat + (LittleEndian.encode 8 v.toNat).length ≤ _
      rw [length_encode]
      omega
    | tail _ hw =>
      have ⟨hlo, hhi⟩ := hi (by omega) w hw
      exact ⟨by omega, by omega⟩

theorem wordPlan_apart (h : addr.toNat + 8 * words.length < 2 ^ 64) :
    (wordPlan words addr).Pairwise Apart := by
  induction words generalizing addr with
  | nil => exact .nil
  | cons v words hi =>
    rw [length_cons] at h
    have hnext : (addr + 8).toNat = addr.toNat + 8 :=
      @AddressSpace.toNat_add_ofNat addr 8 (by omega)
    refine .cons (fun w hw => ?_) (hi (by omega))
    have ⟨hlo, _⟩ := wordPlan_between (by omega) w hw
    refine Std.Symm.symm _ _ (apart_of_le ?_)
    show addr.toNat + (LittleEndian.encode 8 v.toNat).length ≤ lo w
    rw [length_encode]
    omega

theorem getElem?_wordPlan {i : Nat} :
    (wordPlan words addr)[i]? = words[i]?.map fun v =>
      ⟨addr + BitVec.ofNat 64 (8 * i), LittleEndian.encode 8 v.toNat⟩ := by
  induction words generalizing addr i with
  | nil => rfl
  | cons v words hi =>
    cases i with
    | zero => simp [wordPlan]
    | succ i =>
      rw [wordPlan, List.getElem?_cons_succ, List.getElem?_cons_succ, hi, add_assoc]
      simp only [Nat.mul_succ, Nat.add_comm _ 8, ofNat_add]
      rfl

theorem toNat_align (x : U64) : (x &&& ~~~0xF).toNat = x.toNat / 16 * 16 := by
  have hshift : x &&& ~~~(0xF : U64) = x >>> 4 <<< 4 := Bits.and_not_low x 4
  have := x.isLt
  rw [hshift, toNat_shiftLeft, toNat_ushiftRight, Nat.shiftLeft_eq,
    Nat.shiftRight_eq_div_pow]
  omega

end Layout

section Stack

variable {params : ProcessStackParams} {argvPtrs envpPtrs : List U64} {rsp : U64}

-- Where everything comes to lie if there is room for it.
structure Laid (top : U64) (params : ProcessStackParams) (argvPtrs envpPtrs : List U64)
    (last rsp : U64) : Prop where
  stacked : Stacked (params.argv ++ params.envp) top (argvPtrs ++ envpPtrs) last
  argc : argvPtrs.length = params.argv.length
  room : blockBytes params ≤ last.toNat
  rsp : rsp.toNat = (last.toNat - blockBytes params) / 16 * 16

theorem allWrites_append (h : ptrs.length = strings.length) :
    allWrites (ptrs ++ ptrs') (strings ++ strings') =
      allWrites ptrs strings ++ allWrites ptrs' strings' := by
  rw [allWrites, zipWith_append h, flatten_append]
  rfl

theorem stackPlan_cases (top : U64) (params : ProcessStackParams) :
    (∃ argvPtrs envpPtrs last rsp, Laid top params argvPtrs envpPtrs last rsp ∧
      stackPlan top params =
        (allWrites (argvPtrs ++ envpPtrs) (params.argv ++ params.envp) ++
          wordPlan (vectorWords params argvPtrs envpPtrs) rsp, some rsp)) ∨
    (∃ placed ptrs last, stackPlan top params = (allWrites ptrs placed, none) ∧
      Stacked placed top ptrs last) ∧
      top.toNat < textBytes (params.argv ++ params.envp) + blockBytes params := by
  rw [textBytes, map_append, sum_append, ← textBytes, ← textBytes]
  unfold stackPlan
  match stringPlan_cases params.argv top with
  | .inr ⟨⟨placed, ptrs, last, hargv, h⟩, hlt⟩ =>
    exact .inr ⟨⟨placed, ptrs, last, by rw [hargv], h⟩, by omega⟩
  | .inl ⟨argvPtrs, mid, hargv, h⟩ =>
    rw [hargv]
    dsimp only
    have htext := h.textBytes
    match stringPlan_cases params.envp mid with
    | .inr ⟨⟨placed, ptrs, last, henvp, h'⟩, hlt⟩ =>
      exact .inr ⟨⟨_, _, last, by rw [henvp, allWrites_append h.length], h.append h'⟩, by omega⟩
    | .inl ⟨envpPtrs, last, henvp, h'⟩ =>
      rw [henvp]
      dsimp only
      have htext' := h'.textBytes
      rw [← allWrites_append h.length]
      split
      case isTrue hle =>
        have hsub := toNat_sub_ofNat hle
        have halign := toNat_align (last - BitVec.ofNat 64 (blockBytes params))
        exact .inl ⟨argvPtrs, envpPtrs, last, _, ⟨h.append h', h.length, hle, by omega⟩, rfl⟩
      case isFalse => exact .inr ⟨⟨_, _, last, rfl, h.append h'⟩, by omega⟩

theorem length_auxvWords (auxv : List (U64 × U64)) :
    (auxv.flatMap fun (ty, val) => [ty, val]).length = 2 * auxv.length := by
  induction auxv with
  | nil => rfl
  | cons _ _ hi =>
    simp only [flatMap_cons, length_append, hi, length_cons, length_nil]
    omega

theorem Laid.length_vectorWords (h : Laid top params argvPtrs envpPtrs last rsp) :
    8 * (vectorWords params argvPtrs envpPtrs).length = blockBytes params := by
  have hlen := h.stacked.length
  have hargc := h.argc
  simp only [length_append] at hlen
  simp only [vectorWords, blockBytes, length_append, length_cons, length_auxvWords,
    length_nil]
  omega

section Laid

variable (h : Laid top params argvPtrs envpPtrs last rsp)

include h

theorem Laid.fits : rsp.toNat + 8 * (vectorWords params argvPtrs envpPtrs).length ≤ last.toNat := by
  have hroom := h.room
  have hrsp := h.rsp
  rw [h.length_vectorWords]
  omega

theorem Laid.words_between :
    ∀ w ∈ wordPlan (vectorWords params argvPtrs envpPtrs) rsp,
      Between rsp.toNat last.toNat w := by
  have hfits := h.fits
  have := last.isLt
  intro w hw
  have ⟨hlo, hhi⟩ := wordPlan_between (by omega) w hw
  exact ⟨hlo, by omega⟩

theorem Laid.writes_between :
    ∀ w ∈ allWrites (argvPtrs ++ envpPtrs) (params.argv ++ params.envp) ++
      wordPlan (vectorWords params argvPtrs envpPtrs) rsp, Between rsp.toNat top.toNat w := by
  have hfits := h.fits
  have hle := h.stacked.le
  intro w hw
  cases mem_append.mp hw with
  | inl hw =>
    have ⟨hlo, hhi⟩ := h.stacked.writes_between w hw
    exact ⟨by omega, hhi⟩
  | inr hw =>
    have ⟨hlo, hhi⟩ := h.words_between w hw
    exact ⟨hlo, by omega⟩

theorem Laid.writes_apart :
    (allWrites (argvPtrs ++ envpPtrs) (params.argv ++ params.envp) ++
      wordPlan (vectorWords params argvPtrs envpPtrs) rsp).Pairwise Apart := by
  have hfits := h.fits
  have := last.isLt
  refine pairwise_append.mpr
    ⟨h.stacked.writes_apart, wordPlan_apart (by omega), fun w hw w' hw' => ?_⟩
  have ⟨hlo, _⟩ := h.stacked.writes_between w hw
  have ⟨_, hhi⟩ := h.words_between w' hw'
  exact apart_of_le (by omega)

end Laid

theorem stackPlan_apart : (stackPlan top params).fst.Pairwise Apart := by
  match stackPlan_cases top params with
  | .inl ⟨_, _, _, _, h, hplan⟩ => exact hplan ▸ h.writes_apart
  | .inr ⟨⟨_, _, _, hplan, h⟩, _⟩ => exact hplan ▸ h.writes_apart

-- The vector as it stands in memory.
def vectorImage (rsp : U64) (words : List U64) : GuestWrite :=
  ⟨rsp, words.flatMap fun v => LittleEndian.encode 8 v.toNat⟩

theorem length_vectorImage : (vectorImage rsp words).bytes.length = 8 * words.length := by
  induction words with
  | nil => rfl
  | cons v words hi =>
    simp only [vectorImage, flatMap_cons, length_append, length_cons,
      length_encode] at hi ⊢
    omega

theorem mem_stringWrites_of_getElem? {i : Nat} {p : U64} (hp : ptrs[i]? = some p)
    (hs : strings[i]? = some s) (hw : w ∈ stringWrites p s) : w ∈ allWrites ptrs strings := by
  refine mem_flatten.mpr ⟨stringWrites p s, mem_of_getElem? (i := i) ?_, hw⟩
  rw [List.getElem?_zipWith, hp, hs]

section Read

variable {mem mem' : BackedAddressSpace} {i : Nat} (h : Laid top params argvPtrs envpPtrs last rsp)
  (hmem : mem.Reachable)
  (hdone : Performed mem (allWrites (argvPtrs ++ envpPtrs) (params.argv ++ params.envp) ++
    wordPlan (vectorWords params argvPtrs envpPtrs) rsp) mem')

include h hmem hdone

theorem Laid.read_word {v : U64} (hv : (vectorWords params argvPtrs envpPtrs)[i]? = some v) :
    Fallible.Returns (mem'.read (rsp + BitVec.ofNat 64 (8 * i)) 8)
      (LittleEndian.encode 8 v.toNat) := by
  have hw : ⟨rsp + BitVec.ofNat 64 (8 * i), LittleEndian.encode 8 v.toNat⟩ ∈
      wordPlan (vectorWords params argvPtrs envpPtrs) rsp :=
    mem_of_getElem? (getElem?_wordPlan.trans (by rw [hv]; rfl))
  have hread := hdone.read hmem h.writes_apart (mem_append_right _ hw)
    (by rw [length_encode]; decide)
  rwa [length_encode] at hread

theorem Laid.read_string {p : U64} (hp : (argvPtrs ++ envpPtrs)[i]? = some p)
    (hs : (params.argv ++ params.envp)[i]? = some s) :
    Fallible.Returns (mem'.read p (BitVec.ofNat 64 s.length)) s ∧
    Fallible.Returns (mem'.read (p + BitVec.ofNat 64 s.length) 1) [0] := by
  have hw := fun w hw => mem_append_left
    (wordPlan (vectorWords params argvPtrs envpPtrs) rsp)
    (@mem_stringWrites_of_getElem? _ _ _ w _ _ hp hs hw)
  have hend := (h.stacked.writes_between _
    (mem_stringWrites_of_getElem? hp hs (.head _))).right
  have hlen : s.length < 2 ^ 64 := by
    have := top.isLt
    have hle : p.toNat + s.length ≤ top.toNat := hend
    omega
  have htext := hdone.read (w := ⟨p, s⟩) hmem h.writes_apart (hw _ (.head _)) hlen
  have hzero := hdone.read (w := ⟨p + BitVec.ofNat 64 s.length, [0]⟩) hmem h.writes_apart
    (hw _ (.tail _ (.head _))) (by simp)
  exact ⟨htext, hzero⟩

end Read

-- The stack of a new process, from the stack pointer upward: the number of arguments, pointers to
-- copies of the arguments, pointers to copies of the environment strings, the auxiliary vector.
-- Nothing of it overlaps.
theorem buildInitialStack_layout {mem mem' : BackedAddressSpace} (hmem : mem.Reachable)
    (hrun : buildInitialStack top params mem = some (.ok rsp, mem')) :
    rsp.toNat % 16 = 0 ∧
    ∃ argvPtrs envpPtrs : List U64,
      argvPtrs.length = params.argv.length ∧ envpPtrs.length = params.envp.length ∧
      let words := BitVec.ofNat 64 params.argv.length ::
        (argvPtrs ++ [0] ++ envpPtrs ++ [0] ++
          params.auxv.flatMap (fun (ty, val) => [ty, val]) ++ [0, 0])
      (∀ (i : Nat) (v : U64), words[i]? = some v →
        Fallible.Returns (mem'.read (rsp + BitVec.ofNat 64 (8 * i)) 8)
          (LittleEndian.encode 8 v.toNat)) ∧
      (∀ (i : Nat) (p : U64) (s : List U8), (argvPtrs ++ envpPtrs)[i]? = some p →
        (params.argv ++ params.envp)[i]? = some s →
        Fallible.Returns (mem'.read p (BitVec.ofNat 64 s.length)) s ∧
        Fallible.Returns (mem'.read (p + BitVec.ofNat 64 s.length) 1) [0]) ∧
      (vectorImage rsp words ::
        images (argvPtrs ++ envpPtrs) (params.argv ++ params.envp)).Pairwise Apart ∧
      ∀ w ∈ vectorImage rsp words :: images (argvPtrs ++ envpPtrs) (params.argv ++ params.envp),
        w.addr.toNat + w.bytes.length ≤ top.toNat := by
  match @buildInitialStack_follows top params mem hmem with
  | .inl ⟨_, _, _, _, _, _, _, _, herror⟩ => nomatch hrun.symm.trans herror
  | .inr ⟨mem₁, hdone, hok⟩ =>
    match stackPlan_cases top params with
    | .inr ⟨⟨_, _, _, hplan, _⟩, _⟩ =>
      rw [hplan] at hok
      nomatch hrun.symm.trans hok
    | .inl ⟨argvPtrs, envpPtrs, last, rsp, h, hplan⟩ =>
      rw [hplan] at hok hdone
      cases hrun.symm.trans hok
      have hlens := h.stacked.length
      have hfits := h.fits
      have hle := h.stacked.le
      have hargc := h.argc
      have hlast := last.isLt
      simp only [length_append] at hlens
      have hrsp := h.rsp
      refine ⟨by omega, argvPtrs, envpPtrs, hargc, by omega, ?_⟩
      have hwords : BitVec.ofNat 64 params.argv.length ::
          (argvPtrs ++ [0] ++ envpPtrs ++ [0] ++
            params.auxv.flatMap (fun (ty, val) => [ty, val]) ++ [0, 0]) =
          vectorWords params argvPtrs envpPtrs := by
        simp [vectorWords]
      rw [hwords]
      have hlen := @length_vectorImage (vectorWords params argvPtrs envpPtrs) rsp
      refine ⟨fun i v hv => ?words, fun i p s hp hs => ?strings, .cons ?vector
        h.stacked.images_apart, forall_mem_cons.mpr ⟨?vectorEnd, fun w hw => ?stringEnd⟩⟩
      case words => exact h.read_word hmem hdone hv
      case strings => exact h.read_string hmem hdone hp hs
      case vector =>
        intro w hw
        have ⟨hlo, _⟩ := h.stacked.images_between w hw
        refine Std.Symm.symm _ _ (apart_of_le ?_)
        show rsp.toNat + (vectorImage rsp _).bytes.length ≤ lo w
        omega
      case vectorEnd =>
        show rsp.toNat + (vectorImage rsp _).bytes.length ≤ top.toNat
        omega
      case stringEnd => exact (h.stacked.images_between w hw).right

-- Two arguments, a variable and the page size.
def sampleParams : ProcessStackParams :=
  ⟨[[0x61], [0x62, 0x63]], [[0x58, 0x3D, 0x31]], [(6, 4096)], by decide⟩

def sampleStack : BackedAddressSpace :=
  (BackedAddressSpace.new.mapZeroed 0x1000 0x60 .readWrite).snd

theorem reachable_sampleStack : sampleStack.Reachable :=
  .call (.map 0x1000 0x60 .readWrite) .new rfl

theorem buildInitialStack_layout_sample :
    ∃ mem' argvPtrs envpPtrs,
      buildInitialStack 0x1060 sampleParams sampleStack = some (.ok 0x1000, mem') ∧
      Fallible.Returns (mem'.read 0x1000 8) (LittleEndian.encode 8 2) ∧
      Fallible.Returns (mem'.read 0x1030 8) (LittleEndian.encode 8 6) ∧
      (∀ p, argvPtrs[1]? = some p → Fallible.Returns (mem'.read p 2) [0x62, 0x63]) ∧
      (images (argvPtrs ++ envpPtrs)
        [[0x61], [0x62, 0x63], [0x58, 0x3D, 0x31]]).Pairwise Apart := by
  have hfst : (buildInitialStack 0x1060 sampleParams sampleStack).map Prod.fst =
      some (.ok 0x1000) := by decide +kernel
  obtain ⟨⟨_, mem'⟩, hrun, rfl⟩ := Option.map_eq_some_iff.mp hfst
  have ⟨_, argvPtrs, envpPtrs, hargc, henvc, hwords, hstrings, hapart, _⟩ :=
    buildInitialStack_layout reachable_sampleStack hrun
  match argvPtrs, envpPtrs, hargc, henvc with
  | [p, q], [r], _, _ =>
    refine ⟨mem', [p, q], [r], hrun, hwords 0 _ rfl, hwords 6 _ rfl, fun x hx => ?_,
      (pairwise_cons.mp hapart).right⟩
    cases hx
    exact (hstrings 1 _ _ rfl rfl).left

section Region

variable {mem mem' : BackedAddressSpace} {done rest : List GuestWrite}

-- In the region of the byte below the stack's top.
def InStackRegion (mem : BackedAddressSpace) (top x : U64) : Prop :=
  top ≠ 0 ∧ ∃ r ∈ mem.regions, r.contains (top - 1) ∧ r.contains x

instance {x : U64} : Decidable (InStackRegion mem top x) :=
  inferInstanceAs (Decidable (_ ∧ _))

-- The stack pointer is below the strings and the vector, aligned downward.
def stackPointer (top : U64) (params : ProcessStackParams) : Option U64 :=
  let bytes := textBytes (params.argv ++ params.envp) + blockBytes params
  if bytes ≤ top.toNat then some (BitVec.ofNat 64 ((top.toNat - bytes) / 16 * 16)) else none

def Fits (mem : BackedAddressSpace) (top : U64) (params : ProcessStackParams) : Prop :=
  ∃ rsp, stackPointer top params = some rsp ∧ InStackRegion mem top rsp

-- The `n` bytes below the top are in the stack's region.
def Inside (mem : BackedAddressSpace) (top : U64) (n : Nat) : Prop :=
  n ≤ top.toNat ∧
    ∀ x : U64, top.toNat ≤ x.toNat + n → x.toNat < top.toNat → InStackRegion mem top x

-- The strings before one of them, or all strings, are in the stack's region. The text of that
-- string or the first word of the vector then is in no writable region as a whole: it is not mapped,
-- not writable or reaches from one region into the next, or there is no room for it above address
-- zero.
inductive StopsInside (mem : BackedAddressSpace) (top : U64) (params : ProcessStackParams) : Prop
  | text (before after : List (List U8)) (s : List U8)
    (strings : params.argv ++ params.envp = before ++ s :: after)
    (inside : Inside mem top (textBytes before))
    (refused : ∀ p : U64, p.toNat + textBytes (before ++ [s]) = top.toNat →
      ¬mem.InOneRegion true p s.length)
  | vector (inside : Inside mem top (textBytes (params.argv ++ params.envp)))
    (refused : ∀ rsp, stackPointer top params = some rsp → ¬mem.InOneRegion true rsp 8)

-- The planned writes go on until one is refused or there is no room above address zero. Those
-- before leave the bytes outside of the stack's region as they are.
structure Stops (mem : BackedAddressSpace) (top : U64) (params : ProcessStackParams)
    (done rest : List GuestWrite) : Prop where
  plan : (stackPlan top params).fst = done ++ rest
  refused : ∀ w ∈ rest.head?, ¬w.Accepted mem
  underflow : rest = [] → (stackPlan top params).snd = none
  same : ∀ w ∈ done, ∀ x, Covers w x.toNat → ¬InStackRegion mem top x →
    GuestMem.byte mem x = w.bytes[x.toNat - w.addr.toNat]?

theorem stackPlan_snd : (stackPlan top params).snd = stackPointer top params := by
  unfold stackPointer
  match stackPlan_cases top params with
  | .inr ⟨⟨_, _, _, hplan, _⟩, hlt⟩ => rw [hplan, if_neg (by omega)]
  | .inl ⟨_, _, last, rsp, h, hplan⟩ =>
    have htext := h.stacked.textBytes
    have hroom := h.room
    have hrsp := h.rsp
    have := top.isLt
    rw [hplan, if_pos (by omega)]
    refine congrArg some (eq_of_toNat_eq ?_)
    rw [hrsp, toNat_ofNat, Nat.mod_eq_of_lt (by omega)]
    omega

theorem stackPlan_strings (top : U64) (params : ProcessStackParams) :
    let plan := stringPlan (params.argv ++ params.envp) top
    stackPlan top params = (plan.fst, none) ∨ plan.snd ≠ none ∧ ∃ words rsp,
      stackPlan top params =
        (plan.fst ++ wordPlan (BitVec.ofNat 64 params.argv.length :: words) rsp, some rsp) := by
  dsimp only
  rw [stringPlan_append]
  unfold stackPlan
  obtain ⟨writes, _ | ⟨argvPtrs, cursor⟩⟩ := stringPlan params.argv top
  case none => exact .inl rfl
  case some =>
    dsimp only
    obtain ⟨writes', _ | ⟨envpPtrs, cursor⟩⟩ := stringPlan params.envp cursor
    case none => exact .inl rfl
    case some =>
      dsimp only
      split
      case isTrue => exact .inr ⟨nofun, _, _, rfl⟩
      case isFalse => exact .inl rfl

theorem Inside.same (h : Inside mem top (textBytes strings)) (hs : Stacked strings top ptrs last) :
    ∀ w ∈ allWrites ptrs strings, ∀ x : U64, Covers w x.toNat → ¬InStackRegion mem top x →
      GuestMem.byte mem x = w.bytes[x.toNat - w.addr.toNat]? := by
  intro w hw x hc hx
  have ⟨hlo, hhi⟩ := hs.writes_between w hw
  have htext := hs.textBytes
  unfold Covers at hc
  exact absurd (h.right x (by omega) (by omega)) hx

theorem StopsInside.stops (h : StopsInside mem top params) (hmem : mem.Reachable) :
    ∃ done rest, Stops mem top params done rest := by
  have haccepted {w : GuestWrite} (hl : w.bytes.length < 2 ^ 64)
      (hw : ¬mem.InOneRegion true w.addr w.bytes.length) : ¬w.Accepted mem :=
    mt (BackedAddressSpace.writable_iff hmem.sound hl).mp hw
  have hplan := stackPlan_strings top params
  cases h with
  | text before after s hstrings hin hout =>
    obtain ⟨ptrs, mid, hbefore, hs⟩ | ⟨_, hlt⟩ := stringPlan_cases before top
    case inr => exact absurd hin.left (Nat.not_le.mpr hlt)
    have hsplit := @stringPlan_append before (s :: after) top
    rw [hbefore, ← hstrings] at hsplit
    dsimp only at hsplit
    by_cases hroom : s.length + 1 ≤ mid.toNat
    case pos =>
      have hp := toNat_sub_ofNat hroom
      have htext := hs.textBytes
      have := top.isLt
      obtain ⟨tail, htail⟩ : ∃ tail, (stackPlan top params).fst =
          (stringPlan (params.argv ++ params.envp) top).fst ++ tail := by
        obtain hplan | ⟨_, _, _, hplan⟩ := hplan
        · exact ⟨[], by rw [hplan, append_nil]⟩
        · exact ⟨_, by rw [hplan]⟩
      rw [hsplit, stringPlan.eq_2, if_pos hroom] at htail
      refine ⟨allWrites ptrs before, _ :: _, htail.trans (List.append_assoc ..), ?_, nofun,
        hin.same hs⟩
      intro w hw
      cases hw
      refine haccepted (by dsimp only; omega) (hout _ ?_)
      simp only [textBytes, map_append, sum_append, map_cons, sum_cons, map_nil, sum_nil] at htext ⊢
      omega
    case neg =>
      rw [stringPlan.eq_2, if_neg hroom] at hsplit
      have hplan := hplan.resolve_right fun hn => hn.left (by rw [hsplit]; rfl)
      rw [hsplit] at hplan
      exact ⟨allWrites ptrs before, [], by rw [hplan], nofun, fun _ => by rw [hplan], hin.same hs⟩
  | vector hin hout =>
    obtain ⟨ptrs, mid, hall, hs⟩ | ⟨_, hlt⟩ := stringPlan_cases (params.argv ++ params.envp) top
    case inr => exact absurd hin.left (Nat.not_le.mpr hlt)
    rw [hall] at hplan
    obtain hplan | ⟨_, words, rsp, hplan⟩ := hplan
    case inl =>
      exact ⟨_, [], by rw [hplan, append_nil], nofun, fun _ => by rw [hplan], hin.same hs⟩
    case inr =>
      refine ⟨_, _ :: _, by rw [hplan]; rfl, ?_, nofun, hin.same hs⟩
      intro w hw
      cases hw
      have hrsp := hout rsp (by rw [← stackPlan_snd, hplan])
      exact haccepted (by simp) (by simpa using hrsp)

theorem inStackRegion_of_between {x : U64} (h : mem.Sound) (hr : InStackRegion mem top rsp)
    (hlo : rsp.toNat ≤ x.toNat) (hhi : x.toNat < top.toNat) : InStackRegion mem top x := by
  have ⟨htop, r, hm, ht, hc⟩ := hr
  have hfits := h.wellFormed.fits hm
  have ht' := (Placed.contains_iff hfits).mp ht
  have hc' := (Placed.contains_iff hfits).mp hc
  have hone : (top - 1).toNat = top.toNat - 1 := by
    have hpos : (1 : U64).toNat ≤ top.toNat :=
      Nat.pos_of_ne_zero fun hz => htop (eq_of_toNat_eq hz)
    rw [toNat_sub_of_le (le_def.mpr hpos)]
    rfl
  refine ⟨htop, r, hm, ht, (Placed.contains_iff hfits).mpr ⟨?_, ?_⟩⟩
  · exact Nat.le_trans hc'.left hlo
  · have := ht'.right
    omega

theorem Fits.unchanged (h : Fits mem top params) (hmem : mem.Reachable)
    (hplan : (stackPlan top params).fst = done ++ rest) (hdone : Performed mem done mem')
    (x : U64) (hx : ¬InStackRegion mem top x) : GuestMem.byte mem' x = GuestMem.byte mem x := by
  have ⟨rsp, hrsp, hr⟩ := h
  rw [← stackPlan_snd] at hrsp
  refine hdone.byte_uncovered fun w hw hc => hx ?_
  have hbetween : Between rsp.toNat top.toNat w := by
    match stackPlan_cases top params with
    | .inr ⟨⟨_, _, _, he, _⟩, _⟩ =>
      rw [he] at hrsp
      nomatch hrsp
    | .inl ⟨_, _, _, _, hlaid, he⟩ =>
      rw [he] at hrsp hplan
      cases hrsp
      have hw' : w ∈ done ++ rest := mem_append_left _ hw
      exact hlaid.writes_between w (hplan.symm.subst (motive := (w ∈ ·)) hw')
  exact inStackRegion_of_between hmem.sound hr (Nat.le_trans hbetween.left hc.left)
    (Nat.lt_of_lt_of_le hc.right hbetween.right)

theorem Stops.subset (h : Stops mem top params done rest)
    (hplan : (stackPlan top params).fst = done' ++ rest') (hacc : ∀ w ∈ done', w.Accepted mem) :
    ∀ w ∈ done', w ∈ done := by
  match append_eq_append_iff.mp (h.plan.symm.trans hplan) with
  | .inl ⟨more, hdone', hrest⟩ =>
    cases more with
    | nil => exact fun w hw => by simpa [hdone'] using hw
    | cons w more =>
      have hw := hacc w (by simp [hdone'])
      exact absurd hw (h.refused w (by simp [hrest]))
  | .inr ⟨more, hdone, _⟩ => exact fun w hw => hdone ▸ mem_append_left _ hw

theorem Stops.unchanged (h : Stops mem top params done rest)
    (hplan : (stackPlan top params).fst = done' ++ rest') (hdone : Performed mem done' mem')
    (x : U64) (hx : ¬InStackRegion mem top x) : GuestMem.byte mem' x = GuestMem.byte mem x := by
  by_cases hc : ∃ w ∈ done', Covers w x.toNat
  case pos =>
    have ⟨w, hw, hc⟩ := hc
    have hapart : done'.Pairwise Apart :=
      stackPlan_apart.sublist (hplan ▸ sublist_append_left ..)
    rw [hdone.byte_covered hapart hw hc,
      h.same w (h.subset hplan hdone.accepted w hw) x hc hx]
  case neg => exact hdone.byte_uncovered fun w hw hcw => hc ⟨w, hw, hcw⟩

theorem stops_of_unchanged (hplan : (stackPlan top params).fst = done ++ rest)
    (hdone : Performed mem done mem') (hrest : ∀ w ∈ rest.head?, ¬w.Accepted mem)
    (hunder : rest = [] → (stackPlan top params).snd = none)
    (hsame : ∀ x, ¬InStackRegion mem top x → GuestMem.byte mem' x = GuestMem.byte mem x) :
    Stops mem top params done rest where
  plan := hplan
  refused := hrest
  underflow := hunder
  same w hw x hc hx := by
    have hapart : done.Pairwise Apart :=
      stackPlan_apart.sublist (hplan ▸ sublist_append_left ..)
    rw [← hsame x hx, hdone.byte_covered hapart hw hc]

-- Nothing outside of the stack's region changes, and an image that does not fit is an error.
def StaysInside (mem : BackedAddressSpace) (top : U64) (params : ProcessStackParams)
    (result : Except StackBuildError U64) (mem' : BackedAddressSpace) : Prop :=
  (∀ x, ¬InStackRegion mem top x → GuestMem.byte mem' x = GuestMem.byte mem x) ∧
    (¬Fits mem top params → ∃ e, result = .error e)

-- In terms of the writes this is exact: those before the one that is refused can also put bytes
-- outside of the region that are there already.
theorem staysInside_iff_stops (hmem : mem.Reachable) (top : U64) (params : ProcessStackParams) :
    ∃ result mem', buildInitialStack top params mem = some (result, mem') ∧
      (StaysInside mem top params result mem' ↔
        Fits mem top params ∨ ∃ done rest, Stops mem top params done rest) := by
  match @buildInitialStack_follows top params mem hmem with
  | .inl ⟨done, w, rest, e, mem', hplan, hdone, hw, hrun⟩ =>
    refine ⟨_, mem', hrun, fun ⟨hsame, _⟩ => .inr ⟨done, w :: rest, ?_⟩, fun hcond => ⟨?_, ?_⟩⟩
    · exact stops_of_unchanged hplan hdone (by simpa using hw) nofun hsame
    · match hcond with
      | .inl hfits => exact hfits.unchanged hmem hplan hdone
      | .inr ⟨_, _, hstops⟩ => exact hstops.unchanged hplan hdone
    · exact fun _ => ⟨_, rfl⟩
  | .inr ⟨mem', hdone, hrun⟩ =>
    have hplan : (stackPlan top params).fst = (stackPlan top params).fst ++ [] := by simp
    refine ⟨_, mem', hrun, fun ⟨hsame, herror⟩ => ?_, fun hcond => ⟨?_, fun hn => ?_⟩⟩
    · by_cases hfits : Fits mem top params
      case pos => exact .inl hfits
      case neg =>
        have ⟨e, he⟩ := herror hfits
        refine .inr ⟨_, [], stops_of_unchanged hplan hdone nofun (fun _ => ?_) hsame⟩
        cases hsnd : (stackPlan top params).snd with
        | none => rfl
        | some rsp =>
          rw [hsnd] at he
          nomatch he
    · match hcond with
      | .inl hfits => exact hfits.unchanged hmem hplan hdone
      | .inr ⟨_, _, hstops⟩ => exact hstops.unchanged hplan hdone
    · match hcond with
      | .inl hfits => exact absurd hfits hn
      | .inr ⟨done, rest, hstops⟩ =>
        have hrest : rest = [] := by
          cases rest with
          | nil => rfl
          | cons w rest =>
            have hw := hdone.accepted w (by simp [hstops.plan])
            exact absurd hw (hstops.refused w rfl)
        rw [hstops.underflow hrest]
        exact ⟨_, rfl⟩

-- There is no check of the region itself: a write that lies in a writable region below it goes
-- through.
theorem buildInitialStack_staysInside (hmem : mem.Reachable)
    (h : Fits mem top params ∨ StopsInside mem top params) :
    ∃ result mem', buildInitialStack top params mem = some (result, mem') ∧
      (∀ x, ¬InStackRegion mem top x → GuestMem.byte mem' x = GuestMem.byte mem x) ∧
      (¬Fits mem top params → ∃ e, result = .error e) := by
  have ⟨result, mem', hrun, hiff⟩ := staysInside_iff_stops hmem top params
  exact ⟨result, mem', hrun, hiff.mpr (h.imp_right (·.stops hmem))⟩

-- One string, no environment and no auxiliary entries.
def smallParams : ProcessStackParams :=
  ⟨[[0x61]], [], [], by decide⟩

-- A stack of 16 bytes right above another region.
def shortStack (below : Protection) : BackedAddressSpace :=
  ((BackedAddressSpace.new.mapZeroed 0x1000 0x40 below).snd.mapZeroed 0x1040 0x10 .readWrite).snd

theorem reachable_shortStack (below : Protection) : (shortStack below).Reachable :=
  .call (.map 0x1040 0x10 .readWrite) (.call (.map 0x1000 0x40 below) .new rfl) rfl

theorem not_fits_shortStack : ¬Fits (shortStack below) 0x1050 smallParams := by
  rintro ⟨rsp, hrsp, _, r, hr, htop, hc⟩
  have hplan : stackPointer 0x1050 smallParams = some 0x1010 := rfl
  cases hplan.symm.trans hrsp
  cases hr with
  | head => cases below <;> exact absurd htop (by decide)
  | tail _ hr =>
    cases mem_singleton.mp hr
    exact absurd hc (by decide)

-- The vector is refused, since it would be in a region that is read only.
theorem buildInitialStack_staysInside_readOnly :
    ∃ e mem', buildInitialStack 0x1050 smallParams (shortStack .readOnly) = some (.error e, mem') ∧
      ∀ x, ¬InStackRegion (shortStack .readOnly) 0x1050 x →
        GuestMem.byte mem' x = GuestMem.byte (shortStack .readOnly) x := by
  have hstops : StopsInside (shortStack .readOnly) 0x1050 smallParams := by
    refine .vector ⟨by decide, fun x hlo hhi => ?_⟩ fun rsp hrsp => ?_
    · have hlo : 0x1050 ≤ x.toNat + 2 := hlo
      refine ⟨by decide, _, .tail _ (.head _), rfl, (Placed.contains_iff (by decide)).mpr ⟨?_, hhi⟩⟩
      show 0x1040 ≤ x.toNat
      omega
    · have hplan : stackPointer 0x1050 smallParams = some 0x1010 := rfl
      cases hplan.symm.trans hrsp
      rintro ⟨r, hr, hc, _, hw⟩
      cases hr with
      | head => exact absurd (hw rfl) (by decide)
      | tail _ hr =>
        cases mem_singleton.mp hr
        exact absurd hc.left (by decide)
  have ⟨result, mem', hrun, hsame, herror⟩ :=
    buildInitialStack_staysInside (reachable_shortStack _) (.inr hstops)
  have ⟨e, he⟩ := herror not_fits_shortStack
  exact ⟨e, mem', he ▸ hrun, hsame⟩

-- The vector goes to the region below, and there is no error.
theorem not_buildInitialStack_staysInside :
    ¬∀ mem : BackedAddressSpace, mem.Reachable → ∀ top params result mem',
      buildInitialStack top params mem = some (result, mem') →
      (∀ x, ¬InStackRegion mem top x → GuestMem.byte mem' x = GuestMem.byte mem x) ∧
      (¬Fits mem top params → ∃ e, result = .error e) := by
  intro h
  have ⟨mem', hrun⟩ : ∃ mem', buildInitialStack 0x1050 smallParams (shortStack .readWrite) =
      some (.ok 0x1010, mem') := ⟨_, rfl⟩
  have ⟨_, he⟩ := (h _ (reachable_shortStack .readWrite) 0x1050 smallParams _ _ hrun).right
    not_fits_shortStack
  nomatch he

end Region

end Stack

end Prisma.InitStack
