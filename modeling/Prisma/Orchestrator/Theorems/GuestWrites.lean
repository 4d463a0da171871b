import Prisma.Orchestrator.Theorems.GuestMem

-- Handlers that write to guest memory, in terms of the list of their writes.

namespace Prisma

open Extent

structure GuestWrite where
  addr : U64
  bytes : List U8
deriving DecidableEq

instance : Extent GuestWrite where
  lo w := w.addr.toNat
  hi w := w.addr.toNat + w.bytes.length

namespace GuestWrite

variable {ws ws' : List GuestWrite} {w : GuestWrite} {byte : U64 → Option U8} {x : U64}

def giveAll (byte : U64 → Option U8) : List GuestWrite → U64 → Option U8
  | [] => byte
  | w :: ws => giveAll (MappedMemory.give byte w.addr w.bytes) ws

theorem giveAll_append : giveAll byte (ws ++ ws') = giveAll (giveAll byte ws) ws' := by
  induction ws generalizing byte with
  | nil => rfl
  | cons w ws hi => exact hi

theorem giveAll_uncovered (h : ∀ w ∈ ws, ¬Covers w x.toNat) : giveAll byte ws x = byte x := by
  induction ws generalizing byte with
  | nil => rfl
  | cons w ws hi =>
    rw [giveAll, hi fun w' hw' => h w' (.tail _ hw')]
    exact if_neg (h w (.head _))

theorem giveAll_covered (hp : ws.Pairwise Apart) (hw : w ∈ ws) (hc : Covers w x.toNat) :
    giveAll byte ws x = w.bytes[x.toNat - w.addr.toNat]? := by
  induction ws generalizing byte with
  | nil => nomatch hw
  | cons w' ws hi =>
    have ⟨hhead, htail⟩ := List.pairwise_cons.mp hp
    rw [giveAll]
    cases hw with
    | head =>
      rw [giveAll_uncovered fun w' hw' => hhead w' hw' _ hc]
      exact if_pos hc
    | tail _ hw => exact hi htail hw

end GuestWrite

section Follows

variable {M : Type} [GuestMem M] [LawfulGuestMem M]

open LawfulGuestMem GuestMem

def GuestWrite.Accepted (mem : M) (w : GuestWrite) : Prop :=
  Writable mem w.addr (BitVec.ofNat 64 w.bytes.length)

-- These writes were accepted one after the other.
structure Performed (mem : M) (ws : List GuestWrite) (mem' : M) : Prop where
  valid : Valid mem'
  ranges : SameRanges mem mem'
  accepted : ∀ w ∈ ws, w.Accepted mem
  bytes : byte mem' = GuestWrite.giveAll (byte mem) ws

variable {ε α β : Type} {mem mem₁ mem₂ : M} {ws ws' : List GuestWrite} {w : GuestWrite}
  {fault : RangeError → ε} {c : Stateful ε M α} {f : α → Stateful ε M β} {a : α} {e : ε}
  {ending : Except ε β}

namespace Performed

theorem nil (h : Valid mem) : Performed mem [] mem :=
  ⟨h, .refl mem, nofun, rfl⟩

variable (h : Performed mem ws mem₁)

include h

theorem append (h' : Performed mem₁ ws' mem₂) :
    Performed mem (ws ++ ws') mem₂ where
  valid := h'.valid
  ranges := h.ranges.trans h'.ranges
  accepted w hw := by
    cases List.mem_append.mp hw with
    | inl hw => exact h.accepted w hw
    | inr hw => exact (h.ranges.writable ..).mp (h'.accepted w hw)
  bytes := by rw [h'.bytes, h.bytes, GuestWrite.giveAll_append]

theorem byte_uncovered {x : U64} (hn : ∀ w ∈ ws, ¬Covers w x.toNat) : byte mem₁ x = byte mem x := by
  rw [h.bytes, GuestWrite.giveAll_uncovered hn]

theorem byte_covered {x : U64} (hp : ws.Pairwise Apart) (hw : w ∈ ws)
    (hc : Covers w x.toNat) : byte mem₁ x = w.bytes[x.toNat - w.addr.toNat]? := by
  rw [h.bytes, GuestWrite.giveAll_covered hp hw hc]

theorem read (hv : Valid mem) (hp : ws.Pairwise Apart) (hw : w ∈ ws)
    (hl : w.bytes.length < 2 ^ 64) :
    Fallible.Returns (GuestMem.read mem₁ w.addr (BitVec.ofNat 64 w.bytes.length)) w.bytes := by
  have hlen : (BitVec.ofNat 64 w.bytes.length).toNat = w.bytes.length := Nat.mod_eq_of_lt hl
  have ⟨bytes, hread⟩ :=
    (h.ranges.readable ..).mpr (readable_of_writable hv (h.accepted w hw))
  have ⟨hfits, hbytes, hbyte⟩ := read_returns h.valid hread
  rw [hlen] at hfits hbytes hbyte
  have he : bytes = w.bytes := by
    refine List.ext_getElem? fun k => ?_
    by_cases hk : k < w.bytes.length
    case pos =>
      have hx := AddressSpace.toNat_add_ofNat (show w.addr.toNat + k < 2 ^ 64 by omega)
      have hc : Covers w (w.addr + BitVec.ofNat 64 k).toNat := by
        rw [hx]
        exact ⟨Nat.le_add_right .., Nat.add_lt_add_left hk _⟩
      rw [← hbyte k hk, h.byte_covered hp hw hc, hx, Nat.add_sub_cancel_left]
    case neg => rw [List.getElem?_eq_none (by omega), List.getElem?_eq_none (by omega)]
  exact he ▸ hread

end Performed

-- The writes come in this order. The first one that is refused is the failure of the computation,
-- and after the last one it ends as given.
def Follows (fault : RangeError → ε) (c : Stateful ε M α) (ws : List GuestWrite)
    (ending : Except ε α) : Prop :=
  ∀ mem : M, Valid mem →
    (∃ done w rest e mem', ws = done ++ w :: rest ∧ Performed mem done mem' ∧ ¬w.Accepted mem ∧
      c mem = some (.error (fault e), mem')) ∨
    ∃ mem', Performed mem ws mem' ∧ c mem = some (ending, mem')

namespace Follows

theorem pure : Follows fault (pure a : Stateful ε M α) [] (.ok a) :=
  fun mem h => .inr ⟨mem, .nil h, rfl⟩

theorem fail : Follows fault (Stateful.fail e : Stateful ε M α) [] (.error e) :=
  fun mem h => .inr ⟨mem, .nil h, rfl⟩

theorem store (hl : w.bytes.length < 2 ^ 64) :
    Follows fault (GuestMem.store fault w.addr w.bytes : Stateful ε M Unit) [w] (.ok ()) := by
  intro mem h
  by_cases hw : w.Accepted mem
  case pos =>
    have ⟨_, mem', hret, hvalid, hranges, hbyte⟩ := write_accepted h hl hw
    refine .inr ⟨mem', ⟨hvalid, hranges, by simpa using hw, hbyte⟩, ?_⟩
    rw [GuestMem.store, hret]
    rfl
  case neg =>
    have ⟨e, hrun⟩ := write_refused h hl hw
    refine .inl ⟨[], w, [], e, mem, rfl, .nil h, hw, ?_⟩
    rw [GuestMem.store, hrun]
    rfl

theorem bind (h : Follows fault c ws (.ok a)) (h' : Follows fault (f a) ws' ending) :
    Follows fault (c >>= f) (ws ++ ws') ending := by
  intro mem hvalid
  cases h mem hvalid with
  | inl hrefused =>
    have ⟨done, w, rest, e, mem', hws, hdone, hw, hrun⟩ := hrefused
    exact .inl ⟨done, w, rest ++ ws', e, mem', by simp [hws], hdone, hw,
      Stateful.bind_of_error hrun⟩
  | inr hok =>
    have ⟨mem₁, hdone, hrun⟩ := hok
    rw [Stateful.bind_of_ok hrun]
    cases h' mem₁ hdone.valid with
    | inl hrefused =>
      have ⟨done, w, rest, e, mem', hws, hdone', hw, hrun'⟩ := hrefused
      exact .inl ⟨ws ++ done, w, rest, e, mem', by simp [hws], hdone.append hdone',
        mt (hdone.ranges.writable ..).mpr hw, hrun'⟩
    | inr hok' =>
      have ⟨mem₂, hdone', hrun'⟩ := hok'
      exact .inr ⟨mem₂, hdone.append hdone', hrun'⟩

theorem store_bind {g : Unit → Stateful ε M β} (hl : w.bytes.length < 2 ^ 64)
    (h : Follows fault (g ()) ws ending) :
    Follows fault (GuestMem.store fault w.addr w.bytes >>= g) (w :: ws) ending :=
  bind (store hl) h

theorem bind_pure (h : Follows fault c ws (.ok a)) {b : β} :
    Follows fault (c >>= fun _ => Pure.pure b) ws (.ok b) := by
  have hbind := @bind M _ _ ε α β ws [] fault c (fun _ => Pure.pure b) a (.ok b) h pure
  rwa [List.append_nil] at hbind

theorem bind_error (h : Follows fault c ws (.error e)) :
    Follows fault (c >>= f) ws (.error e) := by
  intro mem hvalid
  cases h mem hvalid with
  | inl hrefused =>
    have ⟨done, w, rest, e, mem', hws, hdone, hw, hrun⟩ := hrefused
    exact .inl ⟨done, w, rest, e, mem', hws, hdone, hw, Stateful.bind_of_error hrun⟩
  | inr hok =>
    have ⟨mem', hdone, hrun⟩ := hok
    exact .inr ⟨mem', hdone, Stateful.bind_of_error hrun⟩

end Follows

end Follows

end Prisma
