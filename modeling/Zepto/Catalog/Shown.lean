import Zepto.Sql.Ddl

/-!
# The registry that statements see

Statements read the columns, the id, the data mark and the time to live of a table, and neither its
placement nor the id counter. The calls of the registry keep what they see in step (`Shows`).
-/

namespace Zepto.Catalog

open List
open Zepto.Sql (nameBytes createSchema modifySchema)

theorem nameBytes_inj : Function.Injective nameBytes := by
  have hinj : Function.Injective Char.ofUInt8 := fun _ _ hab =>
    UInt8.toUInt32_inj.mp (congrArg Char.val hab)
  intro s t h
  exact String.toByteArray_inj.mp (ByteArray.ext (Array.toList_inj.mp (hinj.list_map h)))

abbrev Shown := List ColumnDef × TableId × Bool × Int

def TableSchema.shown (s : TableSchema) : Shown :=
  (s.columns, s.tableId, s.hasData, s.ttlNs.toInt)

def shownColumn (c : Storage.ColumnDef) : ColumnDef := ⟨nameBytes c.name, c.type⟩

def shownSchema (s : Storage.TableSchema) : Shown :=
  (s.columns.map shownColumn, s.tableId, s.hasData, s.ttlNs)

def Shows (cat : Registry) (reg : Storage.SchemaRegistry) : Prop :=
  cat.tables.entries.map (fun e => (e.1, e.2.shown)) =
    reg.entries.map fun e => (nameBytes e.1, shownSchema e.2)

namespace Shows

variable {cat : Registry} {reg : Storage.SchemaRegistry} (h : Shows cat reg) (name : String)

include h

theorem uses_eq (id : TableId) :
    cat.tables.uses id = reg.entries.any fun e => e.2.tableId = id := by
  have hany := congrArg (any · fun x => decide (x.2.2.1 = id)) h
  rwa [any_map, any_map] at hany

theorem erase (next : TableId) :
    Shows ⟨cat.tables.erase (nameBytes name), next⟩ (reg.erase name) := by
  have herase := congrArg (eraseP fun x => decide (nameBytes name = x.1)) h
  rw [eraseP_map, eraseP_map] at herase
  simp only [Function.comp_def, nameBytes_inj.eq_iff] at herase
  exact herase

theorem insert {s : TableSchema} {t : Storage.TableSchema} (hs : s.shown = shownSchema t)
    (next : TableId) :
    Shows ⟨cat.tables.insert (nameBytes name) s, next⟩ (reg.insert name t) :=
  congrArg₂ cons (congrArg (Prod.mk (nameBytes name)) hs) (h.erase name next)

theorem lookup {s : TableSchema} (hs : cat.tables.lookup (nameBytes name) = some s) :
    ∃ t, reg.lookup name = some t ∧ s.shown = shownSchema t := by
  have hmem : (nameBytes name, s.shown) ∈ reg.entries.map _ :=
    h ▸ mem_map_of_mem (AList.mem_lookup_iff.mp hs)
  obtain ⟨⟨n, t⟩, ht, heq⟩ := mem_map.mp hmem
  obtain ⟨hn, hst⟩ := Prod.mk.inj heq
  cases nameBytes_inj hn
  exact ⟨t, AList.mem_lookup_iff.mpr ht, hst.symm⟩

theorem lookup_isSome :
    (cat.tables.lookup (nameBytes name)).isSome = (reg.lookup name).isSome := by
  have hkeys : cat.tables.keys = reg.keys.map nameBytes := by
    have hfst := congrArg (map Prod.fst) h
    rw [map_map, map_map] at hfst
    rw [AList.keys, AList.keys, keys, keys, map_map]
    exact hfst
  rw [Bool.eq_iff_iff, AList.lookup_isSome, AList.lookup_isSome, AList.mem_keys, AList.mem_keys,
    hkeys, mem_map_of_injective nameBytes_inj]

theorem create (columns : List Storage.ColumnDef) (placement : TablePlacementOptions) :
    Option.Rel Shows (cat.create (nameBytes name) (columns.map shownColumn) placement)
      (createSchema reg name columns) := by
  unfold Registry.create createSchema allocateTableId Sql.freeTableId Sql.stableTableId
  rw [h.lookup_isSome, funext h.uses_eq]
  split
  · exact .none
  · simp only
    split
    · exact .none
    · refine .some (h.insert name ?_ _)
      rfl

theorem drop (hname : (reg.lookup name).isSome) :
    ∃ cat', cat.drop (nameBytes name) = some cat' ∧ Shows cat' (reg.erase name) :=
  ⟨_, if_pos (h.lookup_isSome name ▸ hname), h.erase name _⟩

/-- A change of a schema that is the same in both; `ALTER TABLE` makes such changes. -/
theorem change {f : TableSchema → Option TableSchema}
    {g : Storage.TableSchema → Storage.TableSchema}
    (hfg : ∀ s t, s.shown = shownSchema t → (f s).map TableSchema.shown = some (shownSchema (g t)))
    {s : TableSchema} (hs : cat.tables.lookup (nameBytes name) = some s) :
    ∃ cat', cat.change (nameBytes name) f = some cat' ∧ Shows cat' (modifySchema reg name g) := by
  obtain ⟨t, ht, hst⟩ := h.lookup name hs
  obtain ⟨s', hf, hs'⟩ := Option.map_eq_some_iff.mp (hfg s t hst)
  rw [Registry.change, hs, modifySchema, ht]
  simp only [hf]
  exact ⟨_, rfl, h.insert name hs' _⟩

end Shows

end Zepto.Catalog
