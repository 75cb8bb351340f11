import Zepto.Ai.StoreRuns

/-!
# What a cache lookup may answer

An entry of the cache belongs to a tenant and a namespace. A lookup finds entries in two ways that
do not look at them: by a key that joins tenant, namespace and prompt with line feeds, and by the id
of the best match. Where no id is shared with another scope, every answer is one of a store with
the entries of the scope alone, exactly if no line feed of the tenant or inside the namespace lets
another scope have the same key (`cache_isolated_iff`).
-/

namespace Zepto.Ai

open List Zepto.Lib

section IndexBy

variable {α : Type} {key : α → Bytes} {l : List α}

variable (key : α → Bytes) (l : List α)

theorem indexBy_append (a : α) :
    indexBy key (l ++ [a]) = (indexBy key l).insert (key a) l.length := by
  simp [indexBy, zipIdx_append]

theorem indexBy_eq_map : indexBy key l = indexBy id (l.map key) := by
  induction l using reverseRecOn with
  | nil => rfl
  | append_singleton l a ih =>
    rw [indexBy_append, map_append, map_singleton, indexBy_append, ih, length_map]
    rfl

/-- Under a key the index finds the last element that has it. -/
theorem bind_lookup_indexBy (k : Bytes) :
    (((indexBy key l).lookup k).bind fun i => l[i]?) = (l.filter fun a => key a = k).getLast? ∧
      ∀ i, (indexBy key l).lookup k = some i → i < l.length := by
  induction l using reverseRecOn with
  | nil => exact ⟨rfl, fun i h => by simp [indexBy] at h⟩
  | append_singleton l a ih =>
    rw [indexBy_append, filter_append]
    by_cases hk : k = key a
    · subst hk
      simp
    rw [AList.lookup_insert_ne hk]
    have hnil : ([a].filter fun a => key a = k) = [] := by simp [Ne.symm hk]
    rw [hnil, append_nil, ← ih.1]
    constructor
    · cases hl : (indexBy key l).lookup k with
      | none => rfl
      | some i => exact getElem?_append_left (ih.2 i hl)
    intro i hi
    have := ih.2 i hi
    rw [length_append]
    omega

end IndexBy

def CacheEntry.InScope (c : CacheEntry) (tenantId namespaceId : Bytes) : Prop :=
  c.tenantId = tenantId ∧ c.namespaceId = orDefault namespaceId

instance (c : CacheEntry) (tenantId namespaceId : Bytes) :
    Decidable (c.InScope tenantId namespaceId) :=
  inferInstanceAs (Decidable (_ ∧ _))

def IdsApart (l : List CacheEntry) : Prop :=
  ∀ a ∈ l, ∀ b ∈ l, a.cacheId = b.cacheId → a.tenantId = b.tenantId ∧ a.namespaceId = b.namespaceId

instance (l : List CacheEntry) : Decidable (IdsApart l) :=
  inferInstanceAs (Decidable (∀ a ∈ l, ∀ b ∈ l, _))

theorem IdsApart.subset {l l' : List CacheEntry} (h : IdsApart l) (hsub : l' ⊆ l) : IdsApart l' :=
  fun a ha b hb => h a (hsub ha) b (hsub hb)

/-- Only entries of the scope have the key of the prompt. -/
def KeyApart (l : List CacheEntry) (tenantId namespaceId prompt : Bytes) : Prop :=
  ∀ c ∈ l, c.exactKey = exactKey tenantId (orDefault namespaceId) prompt →
    c.InScope tenantId namespaceId

/-! ## Keys -/

/-- No line feed lets the scope be read as another one; a namespace may end in one, as no entry has
an empty namespace. -/
def Unsplit (tenantId namespaceId : Bytes) : Prop :=
  newline ∉ tenantId ∧ newline ∉ (orDefault namespaceId).dropLast

theorem newline_not_mem_normalizePrompt (prompt : Bytes) : newline ∉ normalizePrompt prompt := by
  have hlower : ∀ b : Byte, isSpace b = false → toLower b ≠ newline := by decide
  refine prompt.foldlRecOn (motive := fun acc => newline ∉ acc.1) normalizeByte (b := ([], false))
    not_mem_nil ?_
  intro acc hacc b _
  unfold normalizeByte
  split
  · exact hacc
  next hb =>
    have hb := (hlower b (by simpa using hb)).symm
    have hspace : newline ≠ 32#8 := by decide
    split <;> simp [hacc, hb, hspace]

/-- Of two texts that split alike at a line feed the one behind the last line feed is the same. -/
theorem append_newline_inj {a b p q : Bytes} (hp : newline ∉ p) (hq : newline ∉ q)
    (h : a ++ newline :: p = b ++ newline :: q) : a = b := by
  obtain ⟨c, rfl, hc⟩ | ⟨c, rfl, hc⟩ := append_eq_append_iff.mp h
  all_goals
    rcases c with _ | ⟨x, c⟩
    · simp
    · obtain ⟨-, rfl⟩ := cons_eq_cons.mp hc
      simp at hp hq

theorem Unsplit.keyApart {t n : Bytes} (h : Unsplit t n) {l : List CacheEntry}
    (hl : ∀ c ∈ l, c.namespaceId ≠ []) (p : Bytes) : KeyApart l t n p := by
  intro c hc hkey
  have hscope : c.tenantId ++ newline :: c.namespaceId = t ++ newline :: orDefault n :=
    append_newline_inj (newline_not_mem_normalizePrompt c.prompt)
      (newline_not_mem_normalizePrompt p)
      (by simpa [CacheEntry.exactKey, exactKey] using hkey)
  obtain ⟨_ | ⟨x, a⟩, ht, ha⟩ | ⟨_ | ⟨x, a⟩, ht, ha⟩ := append_eq_append_iff.mp hscope
  · exact ⟨by simpa using ht.symm, (cons_eq_cons.mp ha).2⟩
  · obtain ⟨rfl, -⟩ := cons_eq_cons.mp ha
    exact absurd (by simp [ht]) h.1
  · exact ⟨by simpa using ht, (cons_eq_cons.mp ha).2.symm⟩
  · obtain ⟨rfl, hn⟩ := cons_eq_cons.mp ha
    refine absurd ?_ h.2
    change orDefault n = a ++ newline :: c.namespaceId at hn
    rw [hn, dropLast_append_of_ne_nil (cons_ne_nil _ _), dropLast_cons_of_ne_nil (hl c hc)]
    simp

namespace Store

/-! ## The answers as functions of the entries -/

/-- The answer of `get_cache` in a store whose index is right. -/
def getAnswer (l : List CacheEntry) (tenantId namespaceId prompt : Bytes) : Option CacheEntry :=
  (l.filter fun c => c.exactKey = exactKey tenantId (orDefault namespaceId) prompt).getLast?

/-- The answer of `lookup_cache` in a store whose index is right. -/
def lookupAnswer (entries : List CacheEntry) (l : CacheLookup) (now : Int64) : CacheLookupResult :=
  match (getAnswer entries l.tenantId l.namespaceId l.prompt).filter
      fun c => !expired c.expiresAtNs now with
  | some c => { hit := true, exact := true, score := doubleOfInt 1, entry := touched now c }
  | none =>
    let best := entries.foldl (better l now) {}
    if best.hit then
      match entries.find? fun c => c.cacheId = best.entry.cacheId with
      | some c => { best with entry := touched now c }
      | none => best
    else best

def Indexed (s : Store) : Prop :=
  ∀ k, s.cacheExactIndex.lookup k = (indexBy CacheEntry.exactKey s.cacheEntries).lookup k

variable {s : Store}

section

variable (h : s.Indexed)

include h

theorem Indexed.lt {k : Bytes} {i : Nat} (hi : s.cacheExactIndex.lookup k = some i) :
    i < s.cacheEntries.length := by
  rw [h k] at hi
  exact (bind_lookup_indexBy _ _ k).2 i hi

theorem Indexed.bind_lookup (k : Bytes) :
    ((s.cacheExactIndex.lookup k).bind fun i => s.cacheEntries[i]?) =
      (s.cacheEntries.filter fun c => c.exactKey = k).getLast? := by
  rw [h k]
  exact (bind_lookup_indexBy CacheEntry.exactKey s.cacheEntries k).1

theorem getCache_eq (t n p : Bytes) : s.getCache t n p = getAnswer s.cacheEntries t n p :=
  h.bind_lookup _

theorem map_exactHit (l : CacheLookup) (now : Int64) : (s.exactHit l now).map Prod.snd =
      (getAnswer s.cacheEntries l.tenantId l.namespaceId l.prompt).filter
        fun c => !expired c.expiresAtNs now := by
  unfold getAnswer exactHit
  rw [← h.bind_lookup]
  cases s.cacheExactIndex.lookup _ with
  | none => rfl
  | some i =>
    simp only [Option.bind_some, Option.map_map]
    exact Option.map_id'

end

theorem exactHit_getElem? {l : CacheLookup} {now : Int64} {ic : Nat × CacheEntry}
    (h : s.exactHit l now = some ic) : s.cacheEntries[ic.1]? = some ic.2 := by
  obtain ⟨i, -, hi⟩ := Option.bind_eq_some_iff.mp h
  obtain ⟨c, hc, rfl⟩ := Option.map_eq_some_iff.mp hi
  exact (Option.filter_eq_some_iff.mp hc).1

theorem getD_findIdx? {p : CacheEntry → Bool} {l : List CacheEntry} :
    (l.findIdx? p).map (fun i => l.getD i default) = l.find? p := by
  induction l with
  | nil => rfl
  | cons a l ih =>
    rw [findIdx?_cons, find?_cons]
    cases p a with
    | true => rfl
    | false =>
      simp only [Bool.false_eq_true, ↓reduceIte, Option.map_map]
      exact ih

theorem lookupCache_eq (h : s.Indexed) (l : CacheLookup) (clock : Int64) :
    (s.lookupCache l clock).1 =
      lookupAnswer s.cacheEntries l (if l.nowNs = 0 then clock else l.nowNs) := by
  unfold lookupCache lookupAnswer
  extract_lets now best
  rw [← map_exactHit h]
  cases s.exactHit l now with
  | some ic => rfl
  | none =>
    simp only [Option.map_none]
    by_cases hb : best.hit
    · rw [if_pos hb, if_pos hb, ← getD_findIdx?]
      cases s.cacheEntries.findIdx? _ <;> rfl
    · rw [if_neg hb, if_neg hb]

/-! ## Answers from one scope -/

section Scope

variable {entries : List CacheEntry} {t n p : Bytes}

variable {c : CacheEntry} {l : CacheLookup} {now : Int64}

def ofScope (entries : List CacheEntry) (t n : Bytes) : List CacheEntry :=
  entries.filter fun c => c.InScope t n

theorem mem_ofScope : c ∈ ofScope entries t n ↔ c ∈ entries ∧ c.InScope t n := by
  rw [ofScope, mem_filter, decide_eq_true_eq]

theorem getAnswer_ofScope (h : KeyApart entries t n p) :
    getAnswer entries t n p = getAnswer (ofScope entries t n) t n p := by
  unfold getAnswer ofScope
  rw [filter_filter]
  congr 1
  refine filter_congr fun c hc => ?_
  by_cases hk : c.exactKey = exactKey t (orDefault n) p
  · simp [h c hc hk]
  · simp [hk]

theorem mem_of_getAnswer (h : getAnswer entries t n p = some c) :
    c ∈ entries := mem_of_mem_filter (mem_of_getLast? h)

/-- The best match of a lookup does not depend on entries of other scopes. -/
theorem foldl_better_ofScope (l : CacheLookup) (now : Int64) (best : CacheLookupResult) :
    entries.foldl (better l now) best =
      (ofScope entries l.tenantId l.namespaceId).foldl (better l now) best := by
  induction entries generalizing best with
  | nil => rfl
  | cons c entries ih =>
    rw [foldl_cons, ofScope, filter_cons]
    split
    · exact ih _
    rename_i hc
    have hskip : better l now best c = best := by
      rw [decide_eq_true_eq] at hc
      rw [better, if_pos]
      simp only [inScope, Bool.not_eq_true', Bool.and_eq_false_iff, decide_eq_false_iff_not]
      by_cases ht : c.tenantId = l.tenantId
      · exact .inl (.inr fun hn => hc ⟨ht, hn⟩)
      · exact .inl (.inl ht)
    rw [hskip]
    exact ih best

theorem mem_of_best (h : (entries.foldl (better l now) {}).hit) :
    (entries.foldl (better l now) {}).entry ∈ entries := by
  have aux : ∀ (rest : List CacheEntry) (best : CacheLookupResult), rest ⊆ entries →
      (best.hit → best.entry ∈ entries) →
      (rest.foldl (better l now) best).hit →
      (rest.foldl (better l now) best).entry ∈ entries := by
    intro rest
    induction rest with
    | nil => exact fun best _ hb => hb
    | cons c rest ih =>
      intro best hsub hb
      rw [cons_subset] at hsub
      refine ih _ hsub.2 fun hh => ?_
      unfold better at hh ⊢
      split_ifs with hc
      · rw [if_pos hc] at hh
        exact hb hh
      rw [if_neg hc] at hh
      extract_lets at hh ⊢
      split
      · exact hsub.1
      next hs =>
        rw [if_neg hs] at hh
        exact hb hh
  exact aux entries {} (.refl _) nofun h

theorem find?_ofScope (hids : IdsApart entries) {b : CacheEntry} (hb : b ∈ ofScope entries t n) :
    entries.find? (fun c => c.cacheId = b.cacheId) =
      (ofScope entries t n).find? fun c => c.cacheId = b.cacheId := by
  obtain ⟨hbm, hbt, hbn⟩ := mem_ofScope.mp hb
  rw [ofScope, find?_filter, ← head?_filter, ← head?_filter]
  congr 1
  refine filter_congr fun c hc => ?_
  by_cases hid : c.cacheId = b.cacheId
  · obtain ⟨ht, hn⟩ := hids c hc b hbm hid
    simp [CacheEntry.InScope, ht, hn, hbt, hbn]
  · simp [hid]

theorem lookupAnswer_ofScope (now : Int64) (hids : IdsApart entries)
    (hkey : KeyApart entries l.tenantId l.namespaceId l.prompt) : lookupAnswer entries l now =
      lookupAnswer (ofScope entries l.tenantId l.namespaceId) l now := by
  unfold lookupAnswer
  rw [getAnswer_ofScope hkey, foldl_better_ofScope]
  extract_lets best
  by_cases hb : best.hit
  · rw [find?_ofScope hids (mem_of_best hb)]
  · simp [if_neg hb]

theorem inScope_of_lookupAnswer
    (h : (lookupAnswer (ofScope entries l.tenantId l.namespaceId) l now).hit) :
    (lookupAnswer (ofScope entries l.tenantId l.namespaceId) l now).entry.InScope
      l.tenantId l.namespaceId := by
  have hmem := fun c (hc : c ∈ ofScope entries l.tenantId l.namespaceId) => (mem_ofScope.mp hc).2
  unfold lookupAnswer at h ⊢
  extract_lets best at h
  split
  next c hc =>
    exact hmem c (mem_of_getAnswer (Option.filter_eq_some_iff.mp hc).1)
  rename_i hnone
  simp only [hnone] at h
  by_cases hb : best.hit
  · rw [if_pos hb]
    split
    next c hc =>
      exact hmem c (mem_of_find?_eq_some hc)
    · exact hmem _ (mem_of_best hb)
  · rw [if_neg hb] at h
    exact absurd h hb

end Scope

def onlyScope (s : Store) (tenantId namespaceId : Bytes) : Store :=
  { s with cacheEntries := ofScope s.cacheEntries tenantId namespaceId }.rebuildCacheIndex

/-- The answers to a prompt are entries of its scope, and those of a store with no other entries. -/
structure Isolated (s : Store) (tenantId namespaceId prompt : Bytes) : Prop where
  get_inScope : ∀ c, s.getCache tenantId namespaceId prompt = some c →
    c.InScope tenantId namespaceId
  get_scoped : s.getCache tenantId namespaceId prompt =
    (s.onlyScope tenantId namespaceId).getCache tenantId namespaceId prompt
  lookup_inScope : ∀ (l : CacheLookup) clock, l.tenantId = tenantId →
    l.namespaceId = namespaceId → l.prompt = prompt → (s.lookupCache l clock).1.hit = true →
    (s.lookupCache l clock).1.entry.InScope tenantId namespaceId
  lookup_scoped : ∀ (l : CacheLookup) clock, l.tenantId = tenantId →
    l.namespaceId = namespaceId → l.prompt = prompt →
    (s.lookupCache l clock).1 = ((s.onlyScope tenantId namespaceId).lookupCache l clock).1

theorem isolated (hindex : s.Indexed) (hids : IdsApart s.cacheEntries) {t n p : Bytes}
    (hkey : KeyApart s.cacheEntries t n p) : s.Isolated t n p where
  get_inScope c hc := by
    rw [getCache_eq hindex, getAnswer_ofScope hkey] at hc
    exact (mem_ofScope.mp (mem_of_getAnswer hc)).2
  get_scoped := by
    rw [onlyScope, getCache_eq hindex, getCache_eq (fun _ => rfl), getAnswer_ofScope hkey]
    rfl
  lookup_inScope l clock ht hn hp hhit := by
    subst ht hn hp
    rw [lookupCache_eq hindex, lookupAnswer_ofScope _ hids hkey] at hhit ⊢
    exact inScope_of_lookupAnswer hhit
  lookup_scoped l clock ht hn hp := by
    subst ht hn hp
    rw [onlyScope, lookupCache_eq hindex, lookupCache_eq (fun _ => rfl),
      lookupAnswer_ofScope _ hids hkey]
    rfl

/-! ## Runs -/

structure CacheSound (s : Store) : Prop where
  indexed : s.Indexed
  idsApart : IdsApart s.cacheEntries
  named : ∀ c ∈ s.cacheEntries, c.namespaceId ≠ []

/-- A step brings in no entry whose id an entry of another scope has, and a loaded file no entry
without a namespace. -/
def BringsApart (s : Store) : StoreEvent → Prop
  | .storeCache c _ _ => ∀ a ∈ s.cacheEntries, a.cacheId = s.cacheIdOf c →
      a.InScope c.tenantId c.namespaceId
  | .restoreEvictedEntries evictions =>
    IdsApart (s.cacheEntries ++ (evictions.filter fun e => e.target = .cache).map restoredCache)
  | .loadFromDirectory _ files => ∀ records vectors v, files .records = some records →
      files .vectors = some vectors → readSaved records vectors = .ok v →
      IdsApart v.cacheEntries ∧ ∀ c ∈ v.cacheEntries, c.namespaceId ≠ []
  | _ => True

theorem orDefault_ne_nil (n : Bytes) : orDefault n ≠ [] := by
  unfold orDefault
  split
  · decide
  next h => simpa using h

theorem restoredCache_named (e : EvictionEvent) : (restoredCache e).namespaceId ≠ [] := by
  unfold restoredCache
  dsimp only
  split
  · exact orDefault_ne_nil _
  next h => simpa using h

namespace CacheSound

variable {l : List CacheEntry} {c : CacheEntry} {i : Nat} {clock now : Int64}

theorem congr {t : Store} (h : s.CacheSound) (he : t.cacheEntries = s.cacheEntries)
    (hi : t.cacheExactIndex = s.cacheExactIndex) : t.CacheSound :=
  ⟨fun k => by rw [he, hi]; exact h.indexed k, he ▸ h.idsApart, he ▸ h.named⟩

theorem evicts : Evicts CacheSound where
  row s row h := by
    unfold removeMemoryRow
    split
    · exact h.congr rfl rfl
    · exact h
  cache s l hl h :=
    ⟨fun _ => rfl, h.idsApart.subset hl.subset, fun c hc => h.named c (hl.subset hc)⟩
  counts s m c h := h.congr rfl rfl

section

variable (h : s.CacheSound)

include h

theorem set {existing : CacheEntry} (hi : s.cacheEntries[i]? = some existing)
    (hkey : c.exactKey = existing.exactKey) (hnamed : c.namespaceId ≠ [])
    (hids : IdsApart (s.cacheEntries.set i c)) :
    ({ s with cacheEntries := s.cacheEntries.set i c } : Store).CacheSound := by
  have hkeys : (s.cacheEntries.set i c).map CacheEntry.exactKey =
      s.cacheEntries.map CacheEntry.exactKey := by
    obtain ⟨hlt, rfl⟩ := List.getElem?_eq_some_iff.mp hi
    rw [map_set, hkey, ← map_set, set_getElem_self]
  refine ⟨fun k => ?_, hids, fun a ha => ?_⟩
  · rw [h.indexed k, indexBy_eq_map, ← hkeys, ← indexBy_eq_map]
  · rcases mem_or_eq_of_mem_set ha with ha | rfl
    · exact h.named a ha
    · exact hnamed

theorem append {count : Nat} (hnamed : c.namespaceId ≠ [])
    (hids : IdsApart (s.cacheEntries ++ [c])) : ({ s with
      cacheEntries := s.cacheEntries ++ [c]
      cacheExactIndex := s.cacheExactIndex.insert c.exactKey s.cacheEntries.length
      expiringCacheCount := count } : Store).CacheSound := by
  refine ⟨fun k => ?_, hids, forall_mem_append.mpr ⟨h.named, by simpa using hnamed⟩⟩
  rw [indexBy_append]
  by_cases hk : k = c.exactKey
  · rw [hk, AList.lookup_insert, AList.lookup_insert]
  · rw [AList.lookup_insert_ne hk, AList.lookup_insert_ne hk, h.indexed k]

theorem idsApart_of_mem {c : CacheEntry} {l : List CacheEntry}
    (hc : ∀ a ∈ s.cacheEntries, a.cacheId = c.cacheId →
      a.tenantId = c.tenantId ∧ a.namespaceId = c.namespaceId)
    (hl : ∀ a ∈ l, a ∈ s.cacheEntries ∨ a = c) : IdsApart l := by
  intro a ha b hb hab
  rcases hl a ha with ha | rfl <;> rcases hl b hb with hb | rfl
  · exact h.idsApart a ha b hb hab
  · exact hc a ha hab
  · exact ⟨(hc b hb hab.symm).1.symm, (hc b hb hab.symm).2.symm⟩
  · exact ⟨rfl, rfl⟩

theorem placeCache {c : CacheEntry} {placed : Store} (hnamed : c.namespaceId ≠ [])
    (hc : ∀ a ∈ s.cacheEntries, a.cacheId = c.cacheId →
      a.tenantId = c.tenantId ∧ a.namespaceId = c.namespaceId)
    (hplaced : s.placeCache c = .ok placed) : placed.CacheSound := by
  obtain ⟨i, count, hi, rfl⟩ | ⟨count, -, rfl⟩ := placeCache_cases hplaced
  · have hlt := h.indexed.lt hi
    have hget : s.cacheEntries[i]? = some s.cacheEntries[i] := getElem?_eq_getElem hlt
    have hlast := h.indexed.bind_lookup c.exactKey
    rw [hi, Option.bind_some, hget] at hlast
    have hkey := (mem_filter.mp (mem_of_getLast? hlast.symm)).2
    rw [decide_eq_true_eq] at hkey
    exact (h.set hget hkey.symm hnamed (h.idsApart_of_mem hc fun a => mem_or_eq_of_mem_set)).congr
      rfl rfl
  · exact h.append hnamed (h.idsApart_of_mem hc fun a ha => by simpa using ha)

theorem storeCache (hc : s.BringsApart (.storeCache c clock now)) :
    (s.storeCache c clock now).2.CacheSound := by
  refine storeCache_cases h (fun dim next _ => h.congr rfl rfl) fun dim placed _ hplaced => ?_
  have hprepared : (s.preparedCache c dim).CacheSound := h.congr rfl rfl
  exact evicts.evictOnWrite
    (hprepared.placeCache (c := s.completeCache c clock) (orDefault_ne_nil _) hc hplaced)

theorem touch (hi : s.cacheEntries[i]? = some c) :
    ({ s with cacheEntries := s.cacheEntries.set i (touched now c) } : Store).CacheSound := by
  have hmem : c ∈ s.cacheEntries := mem_of_getElem? hi
  exact h.set hi rfl (h.named c hmem) (h.idsApart_of_mem (c := touched now c)
    (fun a ha hac => h.idsApart a ha c hmem hac) fun a => mem_or_eq_of_mem_set)

theorem lookupCache {l : CacheLookup} : (s.lookupCache l clock).2.CacheSound := by
  unfold Store.lookupCache
  extract_lets now best
  split
  next i c hic =>
    exact h.touch (exactHit_getElem? hic)
  split
  · split
    next i hi =>
      have hlt := (findIdx?_eq_some_iff_getElem.mp hi).1
      refine h.touch ?_
      rw [getD_eq_getElem?_getD, getElem?_eq_getElem hlt, Option.getD_some]
    · exact h
  · exact h

theorem removeCache {t n p : Bytes} : (s.removeCache t n p).2.CacheSound := by
  unfold Store.removeCache
  split
  · exact h
  next i _ =>
    have hsub := (eraseIdx_sublist s.cacheEntries i).subset
    exact ⟨fun _ => rfl, h.idsApart.subset hsub, fun c hc => h.named c (hsub hc)⟩

theorem putMemory {r : MemoryRecord} : (s.putMemory r clock now).2.CacheSound := by
  refine putMemory_cases h (fun dim _ => h.congr rfl rfl) fun dim placement placed _ hp => ?_
  have hplaced : placed.CacheSound := by
    obtain ⟨row, count, -, -, rfl⟩ | ⟨count, -, -, rfl⟩ := placeMemory_cases hp
    all_goals exact h.congr rfl rfl
  exact (evicts.evictOnWrite hplaced).congr rfl rfl

theorem restore {evictions : List EvictionEvent}
    (hc : s.BringsApart (.restoreEvictedEntries evictions)) :
    (s.restoreEvictedEntries evictions).2.CacheSound := by
  -- Every entry of the loop's store is one of the store or of the events.
  have hdone := restore_induction (P := fun acc => acc.store.CacheSound ∧
      acc.store.cacheEntries ⊆ s.cacheEntries ++
        (evictions.filter fun e => e.target = .cache).map restoredCache)
    evictions ?_ ?_ { store := s } ⟨h, subset_append_left _ _⟩
  · refine ⟨fun k => ?_, hdone.1.idsApart, hdone.1.named⟩
    show (if _ then _ else _ : AList _).lookup k = _
    split
    · rfl
    · exact hdone.1.indexed k
  · rintro e - acc t ⟨hacc, hsub⟩ ht
    obtain ⟨-, dim, count, -, rfl⟩ := restoreMemory_eq_some ht
    exact ⟨hacc.congr rfl rfl, hsub⟩
  · rintro e he htarget acc t ⟨hacc, hsub⟩ ht
    obtain ⟨dim, count, -, rfl⟩ := restoreCache_eq_some ht
    have hadopted : (acc.store.adoptDimension dim).CacheSound := hacc.congr rfl rfl
    have hmem : restoredCache e ∈ (evictions.filter fun e => e.target = .cache).map restoredCache :=
      mem_map_of_mem (mem_filter.mpr ⟨he, by simp [htarget]⟩)
    have hsub' := append_subset.mpr
      ⟨hsub, cons_subset.mpr ⟨mem_append_right s.cacheEntries hmem, nil_subset _⟩⟩
    exact ⟨hadopted.append (restoredCache_named e) (.subset hc hsub'), hsub'⟩

theorem load {directory : Bytes} {files : SnapshotDir}
    (hc : s.BringsApart (.loadFromDirectory directory files)) :
    (s.loadFromDirectory directory files).2.CacheSound :=
  load_cases h fun records vectors v _ hr hv hread _ =>
    ⟨fun _ => rfl, (hc records vectors v hr hv hread).1, (hc records vectors v hr hv hread).2⟩

theorem step (e : StoreEvent) (he : s.BringsApart e) : (storeMachine.step s e).2.CacheSound := by
  cases e with
  | putMemory r clock now => exact h.putMemory
  | removeMemory id tenant => exact evicts.removeMemory h
  | search q now rows => exact search_frame fun _ _ _ _ => h.congr rfl rfl
  | storeCache c clock now => exact h.storeCache he
  | removeCache t n p => exact h.removeCache
  | lookupCache l clock => exact h.lookupCache
  | setEvictionConfig config now => exact evicts.evictOnWrite (h.congr rfl rfl)
  | setAnnConfig config | setIdConfig config => exact h.congr rfl rfl
  | evictExpired nowArg clock => exact evicts.evictExpiredLocked _ h
  | restoreEvictedEntries evictions => exact h.restore he
  | loadFromDirectory directory files => exact h.load he
  | clear => exact ⟨fun _ => rfl, nofun, nofun⟩

end

theorem run {events : List StoreEvent} (h : storeMachine.Admits BringsApart {} events) :
    (storeMachine.run {} events).CacheSound :=
  storeMachine.invariant_admits (fun _ e h he => h.step e he) ⟨fun _ => rfl, nofun, nofun⟩ h

end CacheSound

end Store

/-! ## Isolation -/

/-- An entry for the prompt `p`. -/
def promptOf (tenantId namespaceId : Bytes) : CacheEntry :=
  { tenantId, namespaceId, prompt := ascii "p" }

/-- An entry of another scope that has the same key is the answer once it is restored. -/
theorem inScope_of_isolated {t n : Bytes} (t' n' : Bytes) (h : ∀ events,
      storeMachine.Admits Store.BringsApart {} events → ∀ prompt,
        (storeMachine.run {} events).Isolated t n prompt)
    (hnamed : n' ≠ []) (hscope : t' ++ newline :: n' = t ++ newline :: orDefault n) :
    t' = t ∧ n' = orDefault n := by
  let e : EvictionEvent := { target := .cache, tenantId := t', cache := promptOf t' n' }
  have he : Store.restoredCache e = promptOf t' n' := by
    have hp : ascii "p" ≠ [] := by decide
    simp [Store.restoredCache, e, promptOf, hp, hnamed]
  have hone : IdsApart [promptOf t' n'] := by
    intro a ha b hb _
    rw [mem_singleton.mp ha, mem_singleton.mp hb]
    exact ⟨rfl, rfl⟩
  have hadmits : storeMachine.Admits Store.BringsApart {} [.restoreEvictedEntries [e]] :=
    ⟨(congrArg (fun c => IdsApart [c]) he).mpr hone, trivial⟩
  have hentries : (storeMachine.run {} [.restoreEvictedEntries [e]]).cacheEntries =
      [promptOf t' n'] := by
    change (Store.restoreOne { store := {} } e).store.cacheEntries = _
    rw [Store.restoreOne, he]
    rfl
  refine (h _ hadmits (ascii "p")).get_inScope (promptOf t' n') ?_
  rw [Store.getCache_eq (Store.CacheSound.run hadmits).indexed, hentries]
  have hkey : (promptOf t' n').exactKey = exactKey t (orDefault n) (ascii "p") := by
    simpa [CacheEntry.exactKey, exactKey, promptOf] using congrArg
      (· ++ newline :: normalizePrompt (ascii "p")) hscope
  simp [Store.getAnswer, hkey]

/-- If no entry comes in with the id of an entry of another scope, the answers to all prompts of a
scope are isolated exactly if its key cannot be that of another scope. -/
theorem cache_isolated_iff (tenantId namespaceId : Bytes) :
    (∀ events, storeMachine.Admits Store.BringsApart {} events → ∀ prompt,
        (storeMachine.run {} events).Isolated tenantId namespaceId prompt) ↔
      Unsplit tenantId namespaceId := by
  refine ⟨fun h => ⟨fun hmem => ?_, fun hmem => ?_⟩, fun h events hevents prompt => ?_⟩
  · obtain ⟨a, b, hab⟩ := append_of_mem hmem
    have hscope := inScope_of_isolated a (b ++ newline :: orDefault namespaceId) h
      (by simp) (by simp [hab])
    simp [hab] at hscope
  · obtain ⟨a, b, hab⟩ := append_of_mem hmem
    have hsplit := dropLast_append_getLast (Store.orDefault_ne_nil namespaceId)
    rw [hab] at hsplit
    have hscope := inScope_of_isolated (tenantId ++ newline :: a)
      (b ++ [(orDefault namespaceId).getLast (Store.orDefault_ne_nil namespaceId)]) h
      (by simp) (by simpa using hsplit)
    simp at hscope
  · have hsound := Store.CacheSound.run hevents
    exact Store.isolated hsound.indexed hsound.idsApart (h.keyApart hsound.named prompt)

def sharedPrompt : CacheEntry :=
  { tenantId := ascii "a", namespaceId := ascii "b", prompt := ascii "p", response := ascii "r" }

/-- The lookup of another prompt by the tenant `t`. -/
def otherPrompt : CacheLookup :=
  { tenantId := ascii "t", namespaceId := ascii "b", prompt := ascii "q",
    semanticThreshold := doubleOfInt 0 }

/-- A line feed in the tenant stands for the one behind it; and of two entries with one id the first
is answered, whoever's it is. -/
theorem other_tenant_is_answered : ((storeMachine.run {} [.storeCache
        { sharedPrompt with tenantId := ascii "a\nb", namespaceId := ascii "c" } 5 5]).getCache
      (ascii "a") (ascii "b\nc") (ascii "p")).map (·.tenantId) = some (ascii "a\nb") ∧
    (((storeMachine.run {} [.storeCache { sharedPrompt with cacheId := ascii "x" } 5 5,
       .storeCache { sharedPrompt with cacheId := ascii "x", tenantId := ascii "t" } 5
         5]).lookupCache otherPrompt 6).1.entry.tenantId = ascii "a" ∧
      otherPrompt.tenantId = ascii "t") := by
  decide +kernel

end Zepto.Ai
