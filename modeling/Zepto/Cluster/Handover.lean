import Zepto.Cluster.Membership

/-!
# Handing a symbol over

`begin_migration` and `commit_migration` move a symbol by pinning it. Pins are looked up under the
key a row is routed by, and for a table that key is not the symbol: `migration_followed_iff` says
when the pin moves all of the symbol's rows and no others.
-/

namespace Zepto.Cluster

open Router

namespace Router

/-- The router after the migration of `s` from `a` to `b`. -/
def migrate (r : Router) (s : SymbolId) (a b : NodeId) : Router :=
  (r.beginMigration s a b).commitMigration s b

variable {r : Router} {s key : SymbolId} {t : TableId} {a b : NodeId}

theorem owner_migrate_self (r : Router) (s : SymbolId) (a b : NodeId) :
    (r.migrate s a b).owner s = .ok b :=
  owner_of_pin (AList.lookup_insert _)

theorem owner_migrate_of_ne (h : key ≠ s) : (r.migrate s a b).owner key = r.owner key := by
  have hpin : (r.migrate s a b).pinned.lookup key = r.pinned.lookup key := AList.lookup_insert_ne h
  simp only [owner, hpin]
  rfl

theorem tableOwner_migrate_of_pinned (h : r.routeKey t s = none) (s' : SymbolId) :
    (r.migrate s' a b).tableOwner t s = r.tableOwner t s := by
  obtain ⟨ht, x, hp⟩ := routeKey_eq_none h
  have hp' : (r.migrate s' a b).tablePlacements.lookup t = some ⟨.pinnedNode, x⟩ := hp
  simp only [tableOwner, if_pos ht, hp, hp']

/-- All rows of the symbol are routed to `b`, and all others where they were. -/
def MigrationFollowed (r : Router) (s : SymbolId) (a b : NodeId) : Prop :=
  (∀ t, ((r.migrate s a b).routeTable t s).1 = .ok b) ∧
  ∀ t s', s' ≠ s → ((r.migrate s a b).routeTable t s').1 = (r.routeTable t s').1

/-- The keys of the symbol's rows are the symbol, up to rows at `b` already. -/
structure KeysApart (r : Router) (s : SymbolId) (b : NodeId) : Prop where
  rows : ∀ t, r.routeKey t s = some s ∨ r.tableOwner t s = .ok b
  others : r.owner s = .ok b ∨ ∀ t s', s' ≠ s → r.routeKey t s' ≠ some s

theorem tableOwner_migrate (t : TableId) (s' : SymbolId) : (r.migrate s a b).tableOwner t s' =
      if r.routeKey t s' = some s then .ok b else r.tableOwner t s' := by
  cases hkey : r.routeKey t s' with
  | none => simp [tableOwner_migrate_of_pinned hkey]
  | some key =>
    -- The keys stay as they were: only the pin changes.
    rw [(routes_of_routeKey (r := r.migrate s a b) hkey).1, (routes_of_routeKey hkey).1]
    by_cases heq : key = s
    · subst heq
      simp [owner_migrate_self]
    · simp [owner_migrate_of_ne heq, heq]

theorem tableOwner_migrate_iff (t : TableId) : (r.migrate s a b).tableOwner t s = .ok b ↔
      r.routeKey t s = some s ∨ r.tableOwner t s = .ok b := by
  rw [tableOwner_migrate]
  split_ifs with hkey <;> simp [hkey]

theorem tableOwner_migrate_other_iff (t : TableId) (s' : SymbolId) :
    (r.migrate s a b).tableOwner t s' = r.tableOwner t s' ↔
      r.routeKey t s' = some s → r.owner s = .ok b := by
  rw [tableOwner_migrate]
  split_ifs with hkey
  · simp [hkey, (routes_of_routeKey hkey).1, eq_comm]
  · simp [hkey]

end Router

theorem Reachable.migrate {r : Router} (hr : Reachable r) (s : SymbolId) (a b : NodeId) :
    Reachable (r.migrate s a b) :=
  .call (.commitMigration s b) (.call (.beginMigration s a b) hr fun _ => by simp) fun _ => by simp

/-- A migration is followed exactly if the keys of the symbol's rows stand apart. -/
theorem migration_followed_iff {r : Router} (hr : Reachable r) (s : SymbolId) (a b : NodeId) :
    r.MigrationFollowed s a b ↔ r.KeysApart s b := by
  have hr' := hr.migrate s a b
  simp only [MigrationFollowed, hr'.routeTable_eq, hr.routeTable_eq,
    tableOwner_migrate_iff, tableOwner_migrate_other_iff]
  constructor
  · rintro ⟨hrows, hothers⟩
    refine ⟨hrows, ?_⟩
    by_cases hown : r.owner s = .ok b
    · exact .inl hown
    · exact .inr fun t s' hs hkey => hown (hothers t s' hs hkey)
  · rintro ⟨hrows, hown | hothers⟩
    · exact ⟨hrows, fun _ _ _ _ => hown⟩
    · exact ⟨hrows, fun t s' hs hkey => absurd hkey (hothers t s' hs)⟩

/-- Symbol 4 is to move from node 1 to node 2, and the rows of it in table 1 have another key. -/
theorem migration_not_followed : ¬((Router.new.addNode 1).addNode 2).KeysApart 4 2 := by
  intro h
  have hr : Reachable ((new.addNode 1).addNode 2) := (Reachable.new.addNode 1).addNode 2
  have hroute := ((migration_followed_iff hr 4 1 2).mpr h).1 1
  exact absurd (congrArg Except.toOption hroute) (by decide +kernel)

/-- Symbol 4 moves to node 2. Its rows of table 1 stay, and rows of another symbol of that table
move. -/
theorem migration_moves_other_rows :
    (((((Router.new.addNode 1).addNode 2).migrate 4 1 2).routeTable 1 4).1.toOption = some 1) ∧
    ((((Router.new.addNode 1).addNode 2).routeTable 1 65540).1.toOption = some 1) ∧
    (((((Router.new.addNode 1).addNode 2).migrate 4 1 2).routeTable 1 65540).1.toOption =
      some 2) := by
  decide +kernel

end Zepto.Cluster
