/-! Keys of slots: a slot's place and how often that slot had been vacated when the key was given out.

    Both are 32-bit words. That the place is one is up to the pool, which has no more slots than that
    (`Pool.capacity`). -/

namespace Fleet

/-- A key. The generation counts modulo `2 ^ 32`. -/
structure Key where
  index : Nat
  generation : UInt32
  deriving DecidableEq

namespace Key

/-- Keys in order: by place, then by generation. -/
def rank (key : Key) : Nat := key.index * 0x100000000 + key.generation.toNat

theorem eq_of_rank_eq {a b : Key} (h : a.rank = b.rank) : a = b := by
  obtain ⟨i, g⟩ := a
  obtain ⟨j, k⟩ := b
  have hg := g.toNat_lt
  have hk := k.toNat_lt
  simp only [rank] at h
  have hij : i = j := by omega
  have hgk : g = k := UInt32.toNat_inj.mp (by omega)
  rw [hij, hgk]

/-- How two keys stand in order. -/
def order (a b : Key) : Ordering := compare a.rank b.rank

end Key

/-- Things that are told apart by their keys. -/
class Keyed (ι : Type) where
  key : ι → Key
  eq_of_key_eq : ∀ {a b : ι}, key a = key b → a = b

def Keyed.rank {ι : Type} [Keyed ι] (a : ι) : Nat := (Keyed.key a).rank

theorem Keyed.eq_of_rank_eq {ι : Type} [Keyed ι] {a b : ι} (h : rank a = rank b) : a = b :=
  eq_of_key_eq (Key.eq_of_rank_eq h)

instance : Keyed Key where
  key := id
  eq_of_key_eq h := h

end Fleet
