import Std.Data.TreeMap

/-!
# Mappings

A mapping pairs nodes of a source tree with nodes of a destination tree, one to one. It only grows:
a pair is taken in if both of its nodes are still free, and refused otherwise.

Main statement: `Mapping.inverse`, a field of the type, says that the two directions agree.
-/

namespace CallDelta

/-- A one-to-one correspondence between numbers of source nodes and numbers of destination nodes. -/
structure Mapping where
  forward : Std.TreeMap Nat Nat
  backward : Std.TreeMap Nat Nat
  inverse : ∀ s d : Nat, forward[s]? = some d ↔ backward[d]? = some s

namespace Mapping

/-- The mapping without pairs. -/
def empty : Mapping where
  forward := ∅
  backward := ∅
  inverse := by simp

/-- The partner of a source node. -/
def dstOf? (m : Mapping) (s : Nat) : Option Nat := m.forward[s]?

/-- The partner of a destination node. -/
def srcOf? (m : Mapping) (d : Nat) : Option Nat := m.backward[d]?

/-- Whether a source node is paired. -/
def hasSrc (m : Mapping) (s : Nat) : Bool := (m.dstOf? s).isSome

/-- Whether a destination node is paired. -/
def hasDst (m : Mapping) (d : Nat) : Bool := (m.srcOf? d).isSome

/-- The number of pairs. -/
def size (m : Mapping) : Nat := m.forward.size

/-- Whether there are no pairs. -/
def isEmpty (m : Mapping) : Bool := m.forward.isEmpty

/-- The pairs in the order of their source nodes. -/
def pairs (m : Mapping) : List (Nat × Nat) := m.forward.toList

theorem dstOf?_eq_some_iff {m : Mapping} {s d : Nat} : m.dstOf? s = some d ↔ m.srcOf? d = some s :=
  m.inverse s d

/-- The mapping with one more pair. A pair with a node that is paired already is refused. -/
def link? (m : Mapping) (s d : Nat) : Option Mapping :=
  match hs : m.forward[s]?, hd : m.backward[d]? with
  | none, none =>
    some
      { forward := m.forward.insert s d
        backward := m.backward.insert d s
        inverse := by
          intro s' d'
          simp only [Std.TreeMap.getElem?_insert, Nat.compare_eq_eq]
          have h := m.inverse s' d'
          by_cases h₁ : s = s'
          · subst h₁
            by_cases h₂ : d = d'
            · simp [h₂]
            · rw [if_pos rfl, if_neg h₂]
              rw [hs] at h
              simp only [Option.some.injEq]
              exact ⟨fun e => absurd e h₂, fun e => by simpa using h.mpr e⟩
          · by_cases h₂ : d = d'
            · subst h₂
              rw [if_neg h₁, if_pos rfl]
              rw [hd] at h
              simp only [Option.some.injEq]
              exact ⟨fun e => by simpa using h.mp e, fun e => absurd e h₁⟩
            · rw [if_neg h₁, if_neg h₂]
              exact h }
  | _, _ => none

/-- The mapping with a pair taken in, or as it was if the pair is refused. -/
def link (m : Mapping) (s d : Nat) : Mapping := (m.link? s d).getD m

/-- Takes in pairs one after the other. -/
def linkAll (m : Mapping) (pairs : List (Nat × Nat)) : Mapping :=
  pairs.foldl (fun m pair => m.link pair.1 pair.2) m

/-- The mapping made of the pairs that are not refused. -/
def ofPairs (pairs : List (Nat × Nat)) : Mapping := empty.linkAll pairs

end Mapping

end CallDelta
