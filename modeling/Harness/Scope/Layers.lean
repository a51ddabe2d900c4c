-- SUMMARY: Scope chains, and the anonymous registrations that a chain sees (`core/scope`).
import Mathlib.Data.List.Nodup
import Mathlib.Data.List.Range

/-!
# Scoped registrations

A registration is filed under the scope of the context that made it, or into the global layer
when that context has none. A reader sees the global layer and the layers of its own chain.
-/

namespace Harness

open List

abbrev ScopeKey := Nat

/-- `scopeChainOf`: the keys from a scope to its root, nearest first. A link that would close a
cycle is refused, so no key stands twice. -/
structure ScopeChain where
  keys : List ScopeKey
  nodup : keys.Nodup
  deriving DecidableEq

/-- The chain of an unscoped reader. -/
def ScopeChain.empty : ScopeChain := ⟨[], nodup_nil⟩

/-- One append into the `AnonymousEntries` of a layer. The symbol is its identity. -/
structure Registration where
  symbol : Nat
  scope : Option ScopeKey
  deriving DecidableEq

/-- The registrations of all layers of a `ScopedLayers`, in the order they were made. -/
structure ScopedEntries where
  entries : List Registration
  /-- The symbol that the next registration gets. -/
  next : Nat
  below : ∀ entry ∈ entries, entry.symbol < next
  nodup : (entries.map Registration.symbol).Nodup

namespace ScopedEntries

def empty : ScopedEntries := ⟨[], 0, nofun, nodup_nil⟩

/-- `layers.effect(ctx, layer => layer.entries.append(value))`. -/
def append (l : ScopedEntries) (scope : Option ScopeKey) : ScopedEntries where
  entries := l.entries ++ [⟨l.next, scope⟩]
  next := l.next + 1
  below := by
    intro entry hentry
    rcases mem_append.mp hentry with hold | hnew
    · exact (l.below entry hold).trans (Nat.lt_succ_self _)
    · rw [mem_singleton.mp hnew]
      exact Nat.lt_succ_self _
  nodup := by
    rw [map_append]
    refine List.Nodup.append l.nodup (nodup_singleton _) ?_
    intro symbol hold hnew
    obtain ⟨entry, hentry, rfl⟩ := mem_map.mp hold
    have hbelow := l.below entry hentry
    have hsame : entry.symbol = l.next := by simpa using hnew
    omega

/-- The undo of one append. -/
def remove (l : ScopedEntries) (symbol : Nat) : ScopedEntries where
  entries := l.entries.filter (·.symbol ≠ symbol)
  next := l.next
  below := fun entry hentry => l.below entry (mem_of_mem_filter hentry)
  nodup := l.nodup.sublist (List.Sublist.map _ List.filter_sublist)

def layer (l : ScopedEntries) (scope : Option ScopeKey) : List Nat :=
  (l.entries.filter (·.scope = scope)).map Registration.symbol

/-- The global layer's values, then those of the chain's layers, farthest first. -/
def visible (l : ScopedEntries) (chain : ScopeChain) : List Nat :=
  l.layer none ++ chain.keys.reverse.flatMap fun key => l.layer (some key)

variable {l : ScopedEntries}

theorem layer_nodup (l : ScopedEntries) (scope : Option ScopeKey) : (l.layer scope).Nodup :=
  l.nodup.sublist (List.Sublist.map _ List.filter_sublist)

/-- A symbol is filed in one layer only. -/
theorem layer_disjoint {scope scope' : Option ScopeKey} (hne : scope ≠ scope') :
    List.Disjoint (l.layer scope) (l.layer scope') := by
  intro symbol hmem hmem'
  obtain ⟨entry, hentry, rfl⟩ := mem_map.mp hmem
  obtain ⟨entry', hentry', hsame⟩ := mem_map.mp hmem'
  have hentries : entry' = entry := inj_on_of_nodup_map l.nodup
    (mem_of_mem_filter hentry') (mem_of_mem_filter hentry) hsame
  have hscope : entry.scope = scope := by simpa using (mem_filter.mp hentry).2
  have hscope' : entry'.scope = scope' := by simpa using (mem_filter.mp hentry').2
  exact hne (hscope.symm.trans (hentries ▸ hscope'))

theorem visible_nodup (l : ScopedEntries) (chain : ScopeChain) : (l.visible chain).Nodup := by
  refine List.Nodup.append (l.layer_nodup none) ?_ ?_
  · rw [nodup_flatMap]
    refine ⟨fun key _ => l.layer_nodup (some key), ?_⟩
    apply List.Pairwise.imp _ (nodup_reverse.mpr chain.nodup)
    intro key key' hne
    exact layer_disjoint fun h => hne (Option.some.inj h)
  · intro symbol hglobal hscoped
    obtain ⟨key, -, hmem⟩ := mem_flatMap.mp hscoped
    exact layer_disjoint (Option.some_ne_none key).symm hglobal hmem

end ScopedEntries

end Harness
