import Zepto.Storage.Contents

/-!
# Lengths of columns

Where the arena has room for the appends of a row, and how they change the lengths of the columns of
a partition (`sizes`). The answers of the four appends of a tick are not looked at, so all columns
grow only if they are the four of a tick and the arena has room for each (`addTick_aligned`).
-/

namespace Zepto.Storage

open ColumnVector List Zepto.Lib

def TickMessage.cells (msg : TickMessage) : List (String × Nat × Nat) :=
  [("timestamp", 8, unsigned 64 msg.recvTs), ("price", 8, unsigned 64 msg.price),
    ("volume", 8, unsigned 64 msg.volume), ("msg_type", 4, msg.msgType.toNat)]

namespace Partition

variable {p : Partition} {i n : Nat}

def sizes (p : Partition) : List Nat := p.columns.map size

def names (p : Partition) : List String := p.columns.map name

/-- All columns have `n` rows. -/
def Aligned (p : Partition) (n : Nat) : Prop := ∀ s ∈ p.sizes, s = n

theorem numRows_eq_headD (p : Partition) : p.numRows = p.sizes.headD 0 := by
  unfold numRows sizes
  cases p.columns <;> rfl

theorem numRows_of_aligned (h : p.Aligned n) (hne : p.columns ≠ []) : p.numRows = n := by
  rw [numRows_eq_headD]
  cases hs : p.sizes with
  | nil => exact absurd (map_eq_nil_iff.mp hs) hne
  | cons s ss => exact h s (by rw [hs]; exact mem_cons_self)

/-! ## Room in the arena -/

end Partition

namespace ColumnVector

/-- The column after one more row, the arena being used up to `used`. -/
def next (c : ColumnVector) (used : Nat) : ColumnVector :=
  { if c.size < c.capacity then c else c.moveTo (alignUp used) with size := c.size + 1 }

/-- The column and the end of the arena after `n` more rows, if there is room. -/
def reserveRows (arenaSize : Nat) : Nat → ColumnVector → Nat → Option (ColumnVector × Nat)
  | 0, c, used => some (c, used)
  | n + 1, c, used =>
    (c.reserve arenaSize used).bind fun used' => reserveRows arenaSize n (c.next used) used'

theorem next_name (c : ColumnVector) (used : Nat) : (c.next used).name = c.name := by
  unfold next
  split <;> rfl

/-- A new column with its first block, if there is one, and the end of the arena. -/
def fresh (arenaSize used : Nat) (d : ColumnDef) : ColumnVector × Nat :=
  let c := empty d.name d.type
  if (c.moveTo (alignUp used)).stop ≤ arenaSize then
    (c.moveTo (alignUp used), (c.moveTo (alignUp used)).stop)
  else (c, used)

end ColumnVector

/-- The columns and the end of the arena once each missing column was added with `rows` rows, if
there is room. -/
def fillColumns (arenaSize rows : Nat) :
    List ColumnVector → List ColumnDef → Nat → Option (List ColumnVector × Nat)
  | cols, [], used => some (cols, used)
  | cols, d :: ds, used =>
    if cols.any fun c => c.name = d.name then fillColumns arenaSize rows cols ds used
    else
      let c := fresh arenaSize used d
      (c.1.reserveRows arenaSize rows c.2).bind fun r =>
        fillColumns arenaSize rows (cols ++ [r.1]) ds r.2

namespace Partition

variable {p : Partition} {i n : Nat}

section

variable {c : ColumnVector} {used : Nat} {β α : Type} {f : α → Bool} {l : List α} {a : α} {i : Nat}
  {msg : TickMessage}

/-- The columns that the schema adds can be filled up with zeros. -/
def backfills (p : Partition) (schema : TableSchema) : Bool :=
  (fillColumns p.arenaSize p.numRows p.columns schema.columns p.arenaUsed).isSome

/-- The end of the arena after one more row of each named column; none if one is missing or has no
room. -/
def reserveNamed (p : Partition) : List String → Nat → Option Nat
  | [], used => some used
  | name :: names, used =>
    (p.getColumn name).bind fun c =>
      (c.reserve p.arenaSize used).bind fun used' => p.reserveNamed names used'

theorem grow_next {c : ColumnVector} {used : Nat} (hi : p.columns[i]? = some c)
    (h : c.reserve p.arenaSize p.arenaUsed = some used) :
    ∃ c', (p.grow i).columns = p.columns.set i c' ∧ c'.size < c'.capacity ∧
      { c' with size := c'.size + 1 } = c.next p.arenaUsed ∧
      (p.grow i).arenaUsed = used ∧ (p.grow i).arenaSize = p.arenaSize := by
  unfold reserve at h
  unfold grow ColumnVector.next
  split
  next hnone =>
    rw [hi] at hnone
    cases hnone
  rename_i d hd
  rw [hi] at hd
  cases hd
  by_cases hlt : c.size < c.capacity
  · rw [if_pos hlt] at h
    cases h
    rw [dif_neg fun hfull => (full_iff hi).mp hfull.1 hlt, if_pos hlt]
    exact ⟨c, (set_of_getElem? hi).symm, hlt, rfl, rfl, rfl⟩
  rw [if_neg hlt] at h
  split at h
  next hroom =>
    cases h
    rw [dif_pos ⟨(full_iff hi).mpr hlt, hroom⟩, if_neg hlt]
    refine ⟨_, rfl, ?_, rfl, rfl, rfl⟩
    have := c.capacity_lt_nextCapacity
    have := (full_iff hi).mpr hlt
    show c.size < c.nextCapacity
    omega
  · cases h

theorem append_next (hi : p.columns[i]? = some c)
    (h : c.reserve p.arenaSize p.arenaUsed = some used) (width bits : Nat) :
    let r := p.append i width bits
    r.2 ∧ r.1.columns = p.columns.set i (c.next p.arenaUsed) ∧ r.1.arenaUsed = used ∧
      r.1.arenaSize = p.arenaSize := by
  have hlen := (List.getElem?_eq_some_iff.mp hi).1
  obtain ⟨c', hcols, hlt, hnext, hused, harena⟩ := grow_next hi h
  have hi' : (p.grow i).columns[i]? = some c' := by
    rw [hcols, getElem?_set_self hlen]
  unfold append
  simp only
  split
  next hnone =>
    rw [hi'] at hnone
    cases hnone
  rename_i d hd
  rw [hi'] at hd
  cases hd
  rw [dif_pos hlt]
  refine ⟨rfl, ?_, hused, harena⟩
  show (p.grow i).columns.set i _ = _
  rw [hcols, set_set, hnext]

/-- Appending where there is room adds the row and nothing else. -/
theorem append_contents (hi : p.columns[i]? = some c) {width bits : Nat}
    (hwidth : width = c.type.size) (h : c.reserve p.arenaSize p.arenaUsed = some used) :
    (p.append i width bits).1.contents =
      p.contents.set i ((c.contents p.mem).push (bits % 256 ^ width)) := by
  obtain ⟨c', hcols, hlt, hnext, -⟩ := grow_next hi h
  have htype : c'.type = c.type := (congrArg type hnext).trans (by
    unfold ColumnVector.next
    split <;> rfl)
  have hlen := (List.getElem?_eq_some_iff.mp hi).1
  have hi' : (p.grow i).columns[i]? = some c' := by
    rw [hcols, getElem?_set_self hlen]
  have hread : c'.contents (p.grow i).mem = c.contents p.mem := by
    have h1 := contents_getElem hi'
    rw [grow_contents, contents_getElem hi] at h1
    exact (Option.some.inj h1).symm
  unfold append
  simp only
  split
  next hnone =>
    rw [hi'] at hnone
    cases hnone
  rename_i d hd
  rw [hi'] at hd
  cases hd
  rw [dif_pos hlt]
  subst hwidth
  rw [← htype]
  have hset := map_contents_set hi' (c'.contents_store (p.grow i).mem bits) fun j d hd hj x hx => ?_
  · refine hset.trans ?_
    rw [grow_contents, hread]
  -- The row lies in the block of its own column.
  have hapart : ∀ x, ¬(c'.Owns x ∧ d.Owns x) := by
    have hpair := pairwise_iff_getElem.mp (p.grow i).apart
    obtain ⟨hil, hie⟩ := List.getElem?_eq_some_iff.mp hi'
    obtain ⟨hjl, hje⟩ := List.getElem?_eq_some_iff.mp hd
    rcases lt_or_gt_of_ne hj with hj | hj
    · have := hpair j i hjl hil hj
      rw [hie, hje] at this
      exact this.symm
    · have := hpair i j hil hjl hj
      rw [hie, hje] at this
      exact this
  refine (store_apply_of_outside ?_).symm
  by_contra hin
  have := c'.row_le_stop hlt
  exact hapart x ⟨⟨by omega, by omega⟩, hx⟩

theorem append_full
    (h : ∀ c, p.columns[i]? = some c → c.reserve p.arenaSize p.arenaUsed = none)
    (width bits : Nat) :
    p.append i width bits = (p, false) := by
  have hgrow : p.grow i = p := by
    unfold grow
    split
    · rfl
    rename_i c hi
    have hfull := h c hi
    unfold reserve at hfull
    refine dif_neg fun ⟨heq, hroom⟩ => ?_
    rw [if_neg ((full_iff hi).mp heq), show alignUp p.arenaUsed = p.blockStart from rfl,
      if_pos hroom] at hfull
    cases hfull
  unfold append
  simp only
  split
  · rw [hgrow]
  rename_i c hi
  rw [hgrow] at hi
  have hfull := h c hi
  unfold reserve at hfull
  split
  next hlt =>
    rw [if_pos hlt] at hfull
    cases hfull
  · rw [hgrow]

theorem grow_map {β : Type} (f : ColumnVector → β) (hf : ∀ c a, f (c.moveTo a) = f c)
    (p : Partition) (i : Nat) : (p.grow i).columns.map f = p.columns.map f := by
  unfold grow
  split
  · rfl
  rename_i c hi
  split
  · show (p.columns.set i (c.moveTo p.blockStart)).map f = _
    rw [map_set, hf]
    exact set_of_getElem? (by rw [getElem?_map, hi]; rfl)
  · rfl

theorem append_names (p : Partition) (i width bits : Nat) :
    (p.append i width bits).1.names = p.names := by
  have hgrow := grow_map name (fun _ _ => rfl) p i
  unfold append names
  simp only
  split
  · exact hgrow
  rename_i c hi
  split
  · show ((p.grow i).columns.set i { c with size := c.size + 1 }).map _ = _
    rw [map_set, ← hgrow]
    exact set_of_getElem? (by rw [getElem?_map, hi]; rfl)
  · exact hgrow

/-! ## Typed rows -/

theorem addColumn_sizes (p : Partition) (name : String) (type : ColumnType) :
    (p.addColumn name type).sizes = p.sizes ++ [0] ∧
      (p.addColumn name type).names = p.names ++ [name] := by
  unfold addColumn sizes names
  rw [grow_map size fun _ _ => rfl, grow_map ColumnVector.name fun _ _ => rfl,
    map_append, map_append]
  exact ⟨rfl, rfl⟩

/-- Filling up a column goes through exactly where there is room. -/
theorem appendZeros_spec {a : List ColumnVector} (hp : p.columns = a ++ [c]) (width : Nat) :
    let q := p.appendZeros a.length width n
    match c.reserveRows p.arenaSize n p.arenaUsed with
    | some r => q.1 ∧ q.2.columns = a ++ [r.1] ∧ q.2.arenaUsed = r.2 ∧
        q.2.arenaSize = p.arenaSize
    | none => q.1 = false := by
  induction n generalizing p c with
  | zero => exact ⟨rfl, hp, rfl, rfl⟩
  | succ n ih =>
    have hi : p.columns[a.length]? = some c := by rw [hp, getElem?_concat_length]
    unfold appendZeros reserveRows
    cases hroom : c.reserve p.arenaSize p.arenaUsed with
    | none =>
      rw [append_full (by rw [hi]; rintro _ ⟨⟩; exact hroom)]
      rfl
    | some used =>
      obtain ⟨hok, hcols, hused, hsize⟩ := append_next hi hroom width 0
      rw [hp, set_append_right _ _ (le_refl _), Nat.sub_self] at hcols
      have hrest := ih hcols
      rw [hused, hsize] at hrest
      rw [if_pos hok]
      exact hrest

theorem addColumn_fresh (p : Partition) (d : ColumnDef) : let q := p.addColumn d.name d.type
    let c := fresh p.arenaSize p.arenaUsed d
    q.columns = p.columns ++ [c.1] ∧ q.arenaUsed = c.2 ∧ q.arenaSize = p.arenaSize := by
  unfold addColumn grow
  split
  next hnone =>
    simp at hnone
  rename_i c hc
  rw [getElem?_concat_length] at hc
  cases hc
  split_ifs with h
  · have hfresh : fresh p.arenaSize p.arenaUsed d =
        ((empty d.name d.type).moveTo (alignUp p.arenaUsed),
          ((empty d.name d.type).moveTo (alignUp p.arenaUsed)).stop) := if_pos h.2
    rw [hfresh]
    refine ⟨?_, rfl, rfl⟩
    show (p.columns ++ [empty d.name d.type]).set p.columns.length _ = _
    rw [set_append_right _ _ (le_refl _), Nat.sub_self]
    rfl
  · have hfresh : fresh p.arenaSize p.arenaUsed d =
        (empty d.name d.type, p.arenaUsed) := if_neg fun hroom => h ⟨rfl, hroom⟩
    rw [hfresh]
    exact ⟨rfl, rfl, rfl⟩

/-- The missing columns are filled up exactly where there is room. -/
theorem addMissing_spec (p : Partition) (n : Nat) (cs : List ColumnDef) : let q := p.addMissing n cs
    match fillColumns p.arenaSize n p.columns cs p.arenaUsed with
    | some r => q.1 ∧ q.2.columns = r.1 ∧ q.2.arenaUsed = r.2 ∧
        q.2.arenaSize = p.arenaSize
    | none => q.1 = false := by
  induction cs generalizing p with
  | nil => exact ⟨rfl, rfl, rfl, rfl⟩
  | cons d ds ih =>
    unfold fillColumns addMissing
    rw [getColumn_isSome]
    by_cases hname : (p.columns.any fun c => c.name = d.name)
    · rw [if_pos hname, if_pos hname]
      exact ih p
    rw [if_neg hname, if_neg hname]
    obtain ⟨hcols, hstart, hsize⟩ := addColumn_fresh p d
    have hzeros := appendZeros_spec (n := n) hcols d.type.size
    rw [hstart, hsize] at hzeros
    simp only
    cases hroom : (fresh p.arenaSize p.arenaUsed d).1.reserveRows p.arenaSize n
        (fresh p.arenaSize p.arenaUsed d).2 with
    | none =>
      rw [hroom] at hzeros
      rw [if_neg (by rw [show _ = false from hzeros]; exact Bool.false_ne_true)]
      exact hzeros
    | some r =>
      rw [hroom] at hzeros
      obtain ⟨h1, h2, h3, h4⟩ := hzeros
      have hrest := ih ((p.addColumn d.name d.type).appendZeros p.columns.length d.type.size n).2
      rw [h2, h3, h4] at hrest
      rw [if_pos h1]
      exact hrest

/-! ## Ticks -/

def tickNames : List String := ["timestamp", "price", "volume", "msg_type"]

/-- The columns are the four of a tick, with room for one more row. -/
def takesTick (p : Partition) : Bool :=
  p.names.Perm tickNames && (p.reserveNamed tickNames p.arenaUsed).isSome

def shape (p : Partition) : List (String × Nat) := p.columns.map fun c => (c.name, c.size)

theorem find?_set {b : α} (hi : l[i]? = some a) (ha : f a = false) (hb : f b = false) :
    (l.set i b).find? f = l.find? f := by
  induction l generalizing i with
  | nil => rfl
  | cons x l ih =>
    cases i with
    | zero =>
      cases hi
      rw [set_cons_zero, find?_cons, find?_cons, ha, hb]
    | succ i =>
      rw [set_cons_succ, find?_cons, find?_cons, ih hi]

theorem set_eq_map_of_nodup [DecidableEq β] (key : α → β) (f : α → α) (hnodup : (l.map key).Nodup)
    (hi : l[i]? = some a) : l.set i (f a) = l.map fun x => if key x = key a then f x else x := by
  refine ext_getElem? fun j => ?_
  rw [getElem?_map, getElem?_set]
  have hlt := (List.getElem?_eq_some_iff.mp hi).1
  by_cases hj : i = j
  · subst hj
    rw [if_pos hlt, hi]
    simp
  rw [if_neg hj]
  cases hd : l[j]? with
  | none => rfl
  | some d =>
    have hne : key d ≠ key a := by
      intro heq
      apply hj
      refine (getElem?_inj (l := l.map key) (by simpa using hlt) hnodup).mp ?_
      rw [getElem?_map, getElem?_map, hi, hd]
      simp [heq]
    simp [hne]

theorem appendNamed_shape {name : String} (hnodup : p.names.Nodup)
    (hget : p.getColumn name = some c) (h : c.reserve p.arenaSize p.arenaUsed = some used)
    (width bits : Nat) :
    let q := p.appendNamed name width bits
    q.shape = p.shape.map (fun e => (e.1, if e.1 = name then e.2 + 1 else e.2)) ∧
      q.names = p.names ∧ q.arenaUsed = used ∧ q.arenaSize = p.arenaSize ∧
      ∀ other, other ≠ name → q.getColumn other = p.getColumn other := by
  have hname : c.name = name := by simpa using find?_some hget
  have hi := find?_eq_getElem?_findIdx.symm.trans hget
  obtain ⟨-, hcols, hused, hsize⟩ := append_next hi h width bits
  unfold appendNamed
  refine ⟨?_, append_names _ _ _ _, hused, hsize, fun other hother => ?_⟩
  · unfold shape
    rw [hcols, set_eq_map_of_nodup ColumnVector.name (fun _ => c.next p.arenaUsed) hnodup hi,
      map_map, map_map]
    refine map_congr_left fun d hd => ?_
    simp only [Function.comp, hname]
    split
    next hdname =>
      -- There is no other column of the name.
      have hdc : d = c := inj_on_of_nodup_map hnodup hd (mem_of_getElem? hi)
        (hdname.trans hname.symm)
      rw [hdc, c.next_name]
      rfl
    · rfl
  · unfold getColumn
    rw [hcols]
    refine find?_set hi ?_ ?_
    · simpa [hname] using hother.symm
    · simpa [next_name, hname] using hother.symm

theorem reserveNamed_congr {q : Partition} {names : List String} (hsize : q.arenaSize = p.arenaSize)
    (h : ∀ name ∈ names, q.getColumn name = p.getColumn name) (used : Nat) :
    q.reserveNamed names used = p.reserveNamed names used := by
  induction names generalizing used with
  | nil => rfl
  | cons name names ih =>
    unfold reserveNamed
    rw [h name mem_cons_self, hsize]
    simp [ih fun m hm => h m (mem_cons_of_mem _ hm)]

theorem appendAll_shape (ops : List (String × Nat × Nat)) (hnodup : p.names.Nodup)
    (hops : (ops.map Prod.fst).Nodup)
    (h : (p.reserveNamed (ops.map Prod.fst) p.arenaUsed).isSome) :
    (ops.foldl (fun q op => q.appendNamed op.1 op.2.1 op.2.2) p).shape =
      p.shape.map fun e => (e.1, e.2 + (ops.map Prod.fst).count e.1) := by
  induction ops generalizing p with
  | nil => simp
  | cons op ops ih =>
    obtain ⟨name, width, bits⟩ := op
    rw [map_cons, nodup_cons] at hops
    rw [map_cons, Option.isSome_iff_exists] at h
    obtain ⟨last, h⟩ := h
    obtain ⟨c, hget, h⟩ := Option.bind_eq_some_iff.mp h
    obtain ⟨used, hres, h⟩ := Option.bind_eq_some_iff.mp h
    obtain ⟨hshape, hnames, hused, hsize, hother⟩ := appendNamed_shape hnodup hget hres width bits
    rw [foldl_cons, ih (hnames ▸ hnodup) hops.2, hshape, map_map]
    · refine map_congr_left fun e _ => ?_
      by_cases he : e.1 = name
      · subst he
        simp
        omega
      · simp [he, Ne.symm he]
    · rw [hused, reserveNamed_congr hsize, h]
      · rfl
      · intro m hm
        refine hother m ?_
        rintro rfl
        exact hops.1 hm

theorem addTick_eq (p : Partition) (msg : TickMessage) :
    p.addTick msg = msg.cells.foldl (fun q op => q.appendNamed op.1 op.2.1 op.2.2)
      (p.addTickColumns msg) := rfl

theorem sizes_eq_shape (p : Partition) : p.sizes = p.shape.map Prod.snd := by
  rw [shape, map_map]
  rfl

theorem names_eq_shape (p : Partition) : p.names = p.shape.map Prod.fst := by
  rw [shape, map_map]
  rfl

theorem addTickColumns_aligned (hp : p.Aligned n) (h : (p.addTickColumns msg).names.Perm tickNames)
    (hn : p.numRows = n) : (p.addTickColumns msg).Aligned n := by
  unfold addTickColumns at h ⊢
  split
  · exact hp
  rename_i hcol
  -- The four columns are new, so there are no others.
  rw [if_neg hcol] at h
  have hlen := h.length_eq
  simp only [(addColumn_sizes _ _ _).2, length_append] at hlen
  have hnil : p.columns = [] := by
    rw [← length_eq_zero_iff]
    simp only [names, length_map, tickNames, length_cons] at hlen ⊢
    omega
  have hsizes : p.sizes = [] := by rw [sizes, hnil, map_nil]
  rw [numRows_eq_headD, hsizes] at hn
  unfold Aligned
  simp only [(addColumn_sizes _ _ _).1, hsizes]
  simp [← hn]

/-- A tick is one more row in all columns, where the partition takes it. -/
theorem addTick_aligned (hp : p.Aligned n) (hn : p.numRows = n)
    (h : (p.addTickColumns msg).takesTick) :
    (p.addTick msg).Aligned (n + 1) ∧ (p.addTick msg).numRows = n + 1 := by
  unfold takesTick at h
  rw [Bool.and_eq_true, decide_eq_true_eq] at h
  obtain ⟨hperm, hroom⟩ := h
  have halign := addTickColumns_aligned hp hperm hn
  rw [addTick_eq]
  generalize p.addTickColumns msg = q at hperm hroom halign
  have hnodup : q.names.Nodup := hperm.nodup_iff.mpr (by decide)
  have hshape := appendAll_shape (p := q) msg.cells hnodup (show tickNames.Nodup by decide) hroom
  generalize foldl _ q _ = q' at hshape
  have hnext : q'.Aligned (n + 1) := by
    unfold Aligned
    rw [sizes_eq_shape, hshape, map_map]
    intro s hs
    obtain ⟨e, he, rfl⟩ := mem_map.mp hs
    have hsize : e.2 = n := halign e.2 (by rw [sizes_eq_shape]; exact mem_map_of_mem he)
    have hname : e.1 ∈ tickNames :=
      hperm.mem_iff.mp (by rw [names_eq_shape]; exact mem_map_of_mem he)
    show e.2 + tickNames.count e.1 = n + 1
    rw [hsize, count_eq_one_of_mem (by decide) hname]
  refine ⟨hnext, numRows_of_aligned hnext ?_⟩
  intro hnil
  have hlen := congrArg length hshape
  have hfour : q.names.length = 4 := hperm.length_eq
  simp only [shape, names, hnil, length_map, length_nil] at hlen hfour
  omega

end

end Partition

end Zepto.Storage
