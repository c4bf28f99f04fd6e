import Mathlib.Data.Finset.Card
import Mathlib.Data.List.AList
import Mathlib.Algebra.BigOperators.Group.List.Basic
import Mathlib.Algebra.Order.BigOperators.Group.List

/-! # Bounded least-recently-used maps

    A map with a capacity, kept most-recent-first.  The entries live in Mathlib's
    `AList` (distinct keys by construction) and the bound is a field, so an
    overfull cache cannot be built.

    * `push` inserts at the front and reports what it displaced: the old binding
      of the same key, or the last entry when a new key meets a full cache;
    * `update` is a lookup that refreshes recency and rewrites the value;
    * `pop` and `popAll` remove;
    * a plain membership test refreshes nothing, so it is just `k ∈ c.map`.

    Which keys are new when they are asked for depends on the keys and the capacity
    alone (`newAnswers`).  A key falls out only when as many others as fit were brought to
    the front since it was itself (`Behind.push`).  The last section weighs a map: the
    sum of a nonnegative weight over its entries, and how each operation moves it. -/

namespace LruMap

open List

variable {K V : Type} [DecidableEq K]

/-- A finite map with distinct keys. -/
abbrev Assoc (K V : Type) := AList (fun _ : K => V)

/-- A least-recently-used map: most recent entry first, never over capacity. -/
structure LruCache (K V : Type) where
  map : Assoc K V
  cap : Nat
  cap_pos : 0 < cap
  size_le : map.entries.length ≤ cap

omit [DecidableEq K] in
/-- A cache is its map and its capacity. -/
theorem LruCache.ext' {c d : LruCache K V} (hm : c.map = d.map) (hc : c.cap = d.cap) :
    c = d := by
  cases c; cases d
  subst hm; subst hc
  rfl

/-! ## Sizes of association lists -/

/-- Erasing makes no map longer. -/
theorem length_erase_le (k : K) (m : Assoc K V) :
    (m.erase k).entries.length ≤ m.entries.length :=
  (kerase_sublist k m.entries).length_le

/-- Erasing what is there makes it shorter by one. -/
theorem length_erase_of_mem {k : K} {m : Assoc K V} (h : k ∈ m) :
    (m.erase k).entries.length + 1 = m.entries.length := by
  obtain ⟨b, l₁, l₂, -, hl, he⟩ := exists_of_kerase (AList.mem_keys.mp h)
  show (kerase k m.entries).length + 1 = m.entries.length
  rw [he, hl]
  simp only [length_append, length_cons]
  omega

/-- Inserting over an old key keeps the length. -/
theorem length_insert_of_mem {k : K} {v : V} {m : Assoc K V} (h : k ∈ m) :
    (m.insert k v).entries.length = m.entries.length := by
  rw [AList.entries_insert, length_cons]
  exact length_erase_of_mem h

/-- A new key adds one. -/
theorem length_insert_of_notMem {k : K} {v : V} {m : Assoc K V} (h : k ∉ m) :
    (m.insert k v).entries.length = m.entries.length + 1 := by
  rw [AList.entries_insert_of_notMem h, length_cons]

/-- An insertion adds at most one. -/
theorem length_insert_le (k : K) (v : V) (m : Assoc K V) :
    (m.insert k v).entries.length ≤ m.entries.length + 1 := by
  rw [AList.entries_insert, length_cons]
  exact Nat.succ_le_succ (length_erase_le k m)

/-- Distinct keys make the first match the only one, so erasing is filtering. -/
theorem erase_entries_eq_filter (k : K) (m : Assoc K V) :
    (m.erase k).entries = m.entries.filter (fun e => decide (e.1 ≠ k)) := by
  obtain ⟨l, nd⟩ := m
  show kerase k l = l.filter (fun e => decide (e.1 ≠ k))
  induction l with
  | nil => rfl
  | cons e l ih =>
      obtain ⟨hk, nd'⟩ := nodupKeys_cons.mp nd
      by_cases he : k = e.1
      · rw [kerase_cons_eq he, filter_cons_of_neg (by simp [he])]
        refine (filter_eq_self.mpr ?_).symm
        intro e' he'
        simp only [he, decide_eq_true_eq]
        exact fun h => hk (h ▸ mem_keys_of_mem he')
      · rw [kerase_cons_ne he, filter_cons_of_pos (by simp [Ne.symm he]), ih nd']

/-- All but the least recent entry. -/
def dropLru (m : Assoc K V) : Assoc K V :=
  ⟨m.entries.dropLast, m.nodupKeys.sublist (dropLast_sublist _)⟩

omit [DecidableEq K] in
/-- The eviction adds nothing. -/
theorem mem_of_mem_dropLru {k : K} {m : Assoc K V} (h : k ∈ dropLru m) : k ∈ m :=
  ((dropLast_sublist m.entries).map Sigma.fst).subset h

/-- The entries satisfying a test. -/
def filterMap (p : K → V → Bool) (m : Assoc K V) : Assoc K V :=
  ⟨m.entries.filter (fun e => p e.1 e.2), m.nodupKeys.sublist filter_sublist⟩

/-- A value is found when its entry is there. -/
theorem lookup_eq_some_iff {k : K} {v : V} {m : Assoc K V} :
    m.lookup k = some v ↔ (⟨k, v⟩ : Σ _ : K, V) ∈ m.entries :=
  mem_dlookup_iff m.nodupKeys

/-- A filtered map finds what passes the filter. -/
theorem lookup_filterMap {p : K → V → Bool} {k : K} {v : V} {m : Assoc K V} :
    (filterMap p m).lookup k = some v ↔ m.lookup k = some v ∧ p k v = true := by
  rw [lookup_eq_some_iff, lookup_eq_some_iff]
  exact mem_filter

/-- A key is there when a value is found. -/
theorem mem_iff_lookup {k : K} {m : Assoc K V} : k ∈ m ↔ ∃ v, m.lookup k = some v := by
  rw [← AList.lookup_isSome, Option.isSome_iff_exists]

/-- Inserting fresh distinct keys one after the other reverses their list. -/
theorem foldl_insert_entries {m : Assoc K V} {es : List (Σ _ : K, V)} (hnd : es.NodupKeys)
    (hfresh : ∀ e ∈ es, e.1 ∉ m) :
    (es.foldl (fun m e => m.insert e.1 e.2) m).entries = es.reverse ++ m.entries := by
  induction es generalizing m with
  | nil => rfl
  | cons e es ih =>
      obtain ⟨hnot, hnd'⟩ := nodupKeys_cons.mp hnd
      have hfresh' : ∀ e' ∈ es, e'.1 ∉ m.insert e.1 e.2 := by
        intro e' he' hmem
        rcases (AList.mem_insert _).mp hmem with heq | hin
        · exact hnot (heq ▸ mem_map_of_mem he')
        · exact hfresh e' (mem_cons_of_mem _ he') hin
      show (es.foldl _ (m.insert e.1 e.2)).entries = _
      rw [ih hnd' hfresh', AList.entries_insert_of_notMem (hfresh e mem_cons_self), reverse_cons,
        append_assoc]
      rfl

/-- The one binding an insert adds, or an old one of another key. -/
theorem lookup_insert_iff {k k' : K} {v v' : V} {m : Assoc K V} :
    (m.insert k v).lookup k' = some v'
      ↔ (k' = k ∧ v' = v) ∨ (k' ≠ k ∧ m.lookup k' = some v') := by
  by_cases hk : k' = k
  · subst hk
    rw [AList.lookup_insert]
    constructor
    · intro h
      exact Or.inl ⟨rfl, (Option.some.inj h).symm⟩
    · rintro (⟨-, h⟩ | ⟨h, -⟩)
      · rw [h]
      · exact absurd rfl h
  · rw [AList.lookup_insert_ne hk]
    constructor
    · intro h
      exact Or.inr ⟨hk, h⟩
    · rintro (⟨h, -⟩ | ⟨-, h⟩)
      · exact absurd h hk
      · exact h

namespace LruCache

/-- An empty cache. -/
def new (cap : Nat) (h : 0 < cap) : LruCache K V :=
  ⟨∅, cap, h, Nat.zero_le _⟩

/-- The number of entries. -/
def len (c : LruCache K V) : Nat := c.map.entries.length

/-- Insert at the front.  Reports the displaced binding: the key's own old one,
    or the least recent entry when a new key meets a full cache. -/
def push (c : LruCache K V) (k : K) (v : V) : Option (K × V) × LruCache K V :=
  match hl : c.map.lookup k with
  | some old =>
      (some (k, old),
        { c with
          map := c.map.insert k v
          size_le := by
            rw [length_insert_of_mem (mem_iff_lookup.mpr ⟨old, hl⟩)]
            exact c.size_le })
  | none =>
      if hr : c.map.entries.length < c.cap then
        (none,
          { c with
            map := c.map.insert k v
            size_le := Nat.le_trans (length_insert_le k v c.map) hr })
      else
        (c.map.entries.getLast?.map (fun e => (e.1, e.2)),
          { c with
            map := (dropLru c.map).insert k v
            size_le := by
              have h0 := length_insert_le k v (dropLru c.map)
              have h1 : (dropLru c.map).entries.length = c.map.entries.length - 1 :=
                length_dropLast
              have h2 := c.size_le
              have h3 := c.cap_pos
              omega })

/-- `push`, forgetting the report. -/
def put (c : LruCache K V) (k : K) (v : V) : LruCache K V := (c.push k v).2

/-- Remove a key. -/
def pop (c : LruCache K V) (k : K) : LruCache K V :=
  { c with
    map := c.map.erase k
    size_le := Nat.le_trans (length_erase_le k c.map) c.size_le }

/-- Remove several keys in turn. -/
def popAll (c : LruCache K V) (ks : List K) : LruCache K V := ks.foldl pop c

/-- Insert several bindings in turn. -/
def putAll (c : LruCache K V) (es : List (Σ _ : K, V)) : LruCache K V :=
  es.foldl (fun c e => c.put e.1 e.2) c

/-- Look a key up, refresh its recency and rewrite its value. -/
def update (c : LruCache K V) (k : K) (f : V → V) : LruCache K V :=
  match hl : c.map.lookup k with
  | none => c
  | some v =>
      { c with
        map := c.map.insert k (f v)
        size_le := by
          rw [length_insert_of_mem (mem_iff_lookup.mpr ⟨v, hl⟩)]
          exact c.size_le }

/-! ## What each operation does -/

omit [DecidableEq K] in
@[simp] theorem new_map (cap : Nat) (h : 0 < cap) : (new cap h : LruCache K V).map = ∅ := rfl

omit [DecidableEq K] in
@[simp] theorem new_cap (cap : Nat) (h : 0 < cap) : (new cap h : LruCache K V).cap = cap := rfl

@[simp] theorem pop_map (c : LruCache K V) (k : K) : (c.pop k).map = c.map.erase k := rfl

@[simp] theorem pop_cap (c : LruCache K V) (k : K) : (c.pop k).cap = c.cap := rfl

/-- The three outcomes of `push`: replace, room for one more, or displace. -/
theorem push_cases (c : LruCache K V) (k : K) (v : V) :
    (∃ old, c.map.lookup k = some old ∧ (c.push k v).1 = some (k, old)
        ∧ (c.push k v).2.map = c.map.insert k v)
    ∨ (k ∉ c.map ∧ c.len < c.cap ∧ (c.push k v).1 = none
        ∧ (c.push k v).2.map = c.map.insert k v)
    ∨ (k ∉ c.map ∧ c.len = c.cap
        ∧ (c.push k v).1 = c.map.entries.getLast?.map (fun e => (e.1, e.2))
        ∧ (c.push k v).2.map = (dropLru c.map).insert k v) := by
  unfold push
  split
  · rename_i old hl
    exact Or.inl ⟨old, hl, rfl, rfl⟩
  · rename_i hl
    have hk : k ∉ c.map := AList.lookup_eq_none.mp hl
    split
    · rename_i hr
      exact Or.inr (Or.inl ⟨hk, hr, rfl, rfl⟩)
    · rename_i hr
      refine Or.inr (Or.inr ⟨hk, ?_, rfl, rfl⟩)
      exact Nat.le_antisymm c.size_le (Nat.le_of_not_lt hr)

@[simp] theorem push_cap (c : LruCache K V) (k : K) (v : V) : (c.push k v).2.cap = c.cap := by
  unfold push
  split
  · rfl
  · split <;> rfl

@[simp] theorem put_cap (c : LruCache K V) (k : K) (v : V) : (c.put k v).cap = c.cap :=
  push_cap c k v

/-- A new key that finds room displaces nothing. -/
theorem put_map_of_room {c : LruCache K V} {k : K} (v : V) (hk : k ∉ c.map)
    (hr : c.len < c.cap) : (c.put k v).map = c.map.insert k v := by
  rcases push_cases c k v with ⟨old, hl, -, -⟩ | ⟨-, -, -, h⟩ | ⟨-, hf, -, -⟩
  · exact absurd (mem_iff_lookup.mpr ⟨old, hl⟩) hk
  · exact h
  · exact absurd hf (Nat.ne_of_lt hr)

/-- A new key in a full cache takes the place of the least recent one. -/
theorem put_map_of_full {c : LruCache K V} {k : K} (v : V) (hk : k ∉ c.map)
    (hf : c.len = c.cap) : (c.put k v).map = (dropLru c.map).insert k v := by
  rcases push_cases c k v with ⟨old, hl, -, -⟩ | ⟨-, hr, -, -⟩ | ⟨-, -, -, h⟩
  · exact absurd (mem_iff_lookup.mpr ⟨old, hl⟩) hk
  · exact absurd hf (Nat.ne_of_lt hr)
  · exact h

/-- A new key goes in front; what no longer fits falls off the end. -/
theorem put_entries_of_notMem {c : LruCache K V} {k : K} (v : V) (hk : k ∉ c.map) :
    (c.put k v).map.entries = (⟨k, v⟩ :: c.map.entries).take c.cap := by
  have hlen : c.map.entries.length ≤ c.cap := c.size_le
  by_cases hr : c.len < c.cap
  · rw [put_map_of_room v hk hr, AList.entries_insert_of_notMem hk, take_of_length_le hr]
  · have hf : c.map.entries.length = c.cap := Nat.le_antisymm hlen (Nat.le_of_not_lt hr)
    have hk' : k ∉ dropLru c.map := fun h => hk (mem_of_mem_dropLru h)
    have hpos := c.cap_pos
    rw [put_map_of_full v hk hf, AList.entries_insert_of_notMem hk', ← hf,
      show c.map.entries.length = c.map.entries.length - 1 + 1 by omega, take_succ_cons]
    exact congrArg _ (dropLast_eq_take ..)

/-- **BULK INSERTION**: of fresh distinct keys the most recent ones that fit stay. -/
theorem putAll_entries {c : LruCache K V} {es : List (Σ _ : K, V)} (hnd : es.NodupKeys)
    (hfresh : ∀ e ∈ es, e.1 ∉ c.map) :
    (c.putAll es).map.entries = (es.reverse ++ c.map.entries).take c.cap := by
  induction es generalizing c with
  | nil => exact (take_of_length_le c.size_le).symm
  | cons e es ih =>
      obtain ⟨hnot, hnd'⟩ := nodupKeys_cons.mp hnd
      have hput := put_entries_of_notMem e.2 (hfresh e mem_cons_self)
      have hfresh' : ∀ e' ∈ es, e'.1 ∉ (c.put e.1 e.2).map := by
        intro e' he' hmem
        have hkeys : e'.1 ∈ (c.put e.1 e.2).map.entries.keys := hmem
        rw [hput] at hkeys
        have hsub := ((take_sublist c.cap (⟨e.1, e.2⟩ :: c.map.entries)).map Sigma.fst).subset hkeys
        rcases mem_cons.mp hsub with heq | hin
        · exact hnot (heq ▸ mem_map_of_mem he')
        · exact hfresh e' (mem_cons_of_mem _ he') hin
      show ((c.put e.1 e.2).putAll es).map.entries = _
      rw [ih hnd' hfresh', hput, put_cap, reverse_cons, append_assoc, singleton_append]
      rw [take_append, take_append, take_take, Nat.min_eq_left (Nat.sub_le _ _)]

/-- Any number of entries leave the capacity. -/
theorem putAll_cap (c : LruCache K V) (es : List (Σ _ : K, V)) : (c.putAll es).cap = c.cap := by
  induction es generalizing c with
  | nil => rfl
  | cons e es ih => exact (ih (c.put e.1 e.2)).trans (put_cap c e.1 e.2)

/-- What was put is found, even in a cache that was full. -/
theorem lookup_put_self (c : LruCache K V) (k : K) (v : V) :
    (c.put k v).map.lookup k = some v := by
  rcases push_cases c k v with ⟨-, -, -, h⟩ | ⟨-, -, -, h⟩ | ⟨-, -, -, h⟩ <;>
    · show ((c.push k v).2.map).lookup k = some v
      rw [h, AList.lookup_insert]

/-- A binding after `put` is the new one or an old one. -/
theorem lookup_put_cases {c : LruCache K V} {k k' : K} {v v' : V}
    (h : (c.put k v).map.lookup k' = some v') :
    (k' = k ∧ v' = v) ∨ (k' ≠ k ∧ c.map.lookup k' = some v') := by
  rcases push_cases c k v with ⟨-, -, -, hm⟩ | ⟨-, -, -, hm⟩ | ⟨-, -, -, hm⟩
  · exact lookup_insert_iff.mp (hm ▸ h)
  · exact lookup_insert_iff.mp (hm ▸ h)
  · refine (lookup_insert_iff.mp (hm ▸ h)).imp id (And.imp id fun h' => ?_)
    rw [lookup_eq_some_iff] at h' ⊢
    exact (dropLast_sublist c.map.entries).subset h'

/-- What was put is there. -/
theorem mem_put_self (c : LruCache K V) (k : K) (v : V) : k ∈ (c.put k v).map :=
  mem_iff_lookup.mpr ⟨v, lookup_put_self c k v⟩

/-- A new key that finds room leaves every binding in place. -/
theorem lookup_put_of_room {c : LruCache K V} {k k' : K} (v : V) {v' : V} (hk : k ∉ c.map)
    (hr : c.len < c.cap) (h : c.map.lookup k' = some v') :
    (c.put k v).map.lookup k' = some v' := by
  have hne : k' ≠ k := fun he => hk (he ▸ mem_iff_lookup.mpr ⟨v', h⟩)
  rw [put_map_of_room v hk hr, AList.lookup_insert_ne hne]
  exact h

/-- Taking a new key out again restores a cache that had room. -/
theorem pop_put_of_room {c : LruCache K V} {k : K} (v : V) (hk : k ∉ c.map)
    (hr : c.len < c.cap) : (c.put k v).pop k = c := by
  refine ext' ?_ (put_cap c k v)
  rw [pop_map, put_map_of_room v hk hr]
  refine AList.ext ?_
  rw [erase_entries_eq_filter, AList.entries_insert_of_notMem hk, filter_cons_of_neg (by simp),
    filter_eq_self]
  intro e he
  simp only [decide_eq_true_eq]
  rintro rfl
  exact hk (mem_keys_of_mem he)

/-- A full cache has lost an entry by then. -/
theorem len_pop_put_of_full {c : LruCache K V} {k : K} (v : V) (hk : k ∉ c.map)
    (hf : c.len = c.cap) : ((c.put k v).pop k).len + 1 = c.len := by
  have hnot : k ∉ dropLru c.map := fun h => hk (mem_of_mem_dropLru h)
  have hlen : (dropLru c.map).entries.length = c.map.entries.length - 1 := length_dropLast
  have hput := put_map_of_full v hk hf
  have herase := length_erase_of_mem (mem_put_self c k v)
  rw [hput, length_insert_of_notMem hnot, hlen] at herase
  have hpos := c.cap_pos
  have hcap : c.map.entries.length = c.cap := hf
  have hpop : ((c.put k v).pop k).len = (((dropLru c.map).insert k v).erase k).entries.length := by
    show ((c.put k v).map.erase k).entries.length = _
    rw [hput]
  show ((c.put k v).pop k).len + 1 = c.map.entries.length
  omega

/-- `popAll` forgets exactly the listed keys. -/
theorem lookup_popAll (c : LruCache K V) (ks : List K) (k : K) (v : V) :
    (c.popAll ks).map.lookup k = some v ↔ k ∉ ks ∧ c.map.lookup k = some v := by
  induction ks generalizing c with
  | nil => simp [popAll]
  | cons k' ks ih =>
      show ((c.pop k').popAll ks).map.lookup k = some v ↔ _
      rw [ih, pop_map]
      by_cases hk : k = k'
      · subst hk
        simp [AList.lookup_erase]
      · simp [AList.lookup_erase_ne hk, hk]

/-- Popping leaves the capacity. -/
theorem popAll_cap (c : LruCache K V) (ks : List K) : (c.popAll ks).cap = c.cap := by
  induction ks generalizing c with
  | nil => rfl
  | cons k ks ih => exact ih (c.pop k)

/-- The two outcomes of `update`. -/
theorem update_cases (c : LruCache K V) (k : K) (f : V → V) :
    (k ∉ c.map ∧ c.update k f = c)
    ∨ (∃ v, c.map.lookup k = some v ∧ (c.update k f).map = c.map.insert k (f v)) := by
  unfold update
  split
  · rename_i hl
    exact Or.inl ⟨AList.lookup_eq_none.mp hl, rfl⟩
  · rename_i v hl
    exact Or.inr ⟨v, hl, rfl⟩

@[simp] theorem update_cap (c : LruCache K V) (k : K) (f : V → V) :
    (c.update k f).cap = c.cap := by
  unfold update
  split <;> rfl

/-- An update of what is there puts the new value in its place. -/
theorem update_map {c : LruCache K V} {k : K} {v : V} (f : V → V)
    (h : c.map.lookup k = some v) : (c.update k f).map = c.map.insert k (f v) := by
  rcases update_cases c k f with ⟨hk, -⟩ | ⟨v', hv', he⟩
  · exact absurd (mem_iff_lookup.mpr ⟨v, h⟩) hk
  · rw [h] at hv'
    rw [he, Option.some.inj hv']

end LruCache

/-! ## Recency alone -/

section Recency

/-- The keys after one was asked for: a new one goes in front, what no longer fits
    falls off the end, and an old one changes nothing. -/
def remember (cap : Nat) (ks : List K) (q : K) : List K :=
  if q ∈ ks then ks else (q :: ks).take cap

/-- Whether a key has to be brought in. -/
def isNew (ks : List K) (q : K) : Bool := decide (q ∉ ks)

/-- A key that is there is not new. -/
theorem isNew_of_mem {ks : List K} {q : K} (h : q ∈ ks) : isNew ks q = false :=
  decide_eq_false (not_not.mpr h)

/-- A key that is not there is. -/
theorem isNew_of_notMem {ks : List K} {q : K} (h : q ∉ ks) : isNew ks q = true :=
  decide_eq_true h

/-- Which of a sequence of keys are new when they are asked for. -/
def newAnswers (cap : Nat) : List K → List K → List Bool
  | _, [] => []
  | ks, q :: qs => isNew ks q :: newAnswers cap (remember cap ks q) qs

/-- A `put` of a new key, on the keys alone. -/
theorem keys_put_of_notMem {c : LruCache K V} {k : K} (v : V) (hk : k ∉ c.map) :
    (c.put k v).map.keys = remember c.cap c.map.keys k := by
  show (c.put k v).map.entries.map Sigma.fst = _
  rw [LruCache.put_entries_of_notMem v hk, map_take, remember,
    if_neg (fun h => hk (AList.mem_keys.mpr h))]
  rfl

/-- **FRESH KEYS**: distinct new keys are all new, and push the older ones out. -/
theorem newAnswers_fresh {cap : Nat} {fs ks : List K} (qs : List K) (hks : ks.length ≤ cap)
    (hnd : fs.Nodup) (hfresh : ∀ f ∈ fs, f ∉ ks) :
    newAnswers cap ks (fs ++ qs)
      = replicate fs.length true ++ newAnswers cap ((fs.reverse ++ ks).take cap) qs := by
  induction fs generalizing ks with
  | nil => rw [nil_append, reverse_nil, nil_append, take_of_length_le hks]; rfl
  | cons f fs ih =>
      obtain ⟨hnot, hnd'⟩ := nodup_cons.mp hnd
      have hf : f ∉ ks := hfresh f mem_cons_self
      have hfresh' : ∀ g ∈ fs, g ∉ (f :: ks).take cap := by
        intro g hg hmem
        rcases mem_cons.mp (mem_of_mem_take hmem) with rfl | hold
        · exact hnot hg
        · exact hfresh g (mem_cons_of_mem _ hg) hold
      have hstate : (fs.reverse ++ (f :: ks).take cap).take cap
          = ((f :: fs).reverse ++ ks).take cap := by
        rw [reverse_cons, append_assoc, singleton_append, take_append, take_append, take_take,
          Nat.min_eq_left (Nat.sub_le _ _)]
      rw [cons_append, newAnswers, remember, if_neg hf, ih (length_take_le _ _) hnd' hfresh',
        hstate, isNew_of_notMem hf]
      rfl

/-- The last answer of such a sequence. -/
theorem newAnswers_fresh_ne {cap cap' : Nat} {fs ks ks' : List K} {q : K}
    (hks : ks.length ≤ cap) (hks' : ks'.length ≤ cap') (hnd : fs.Nodup)
    (hfresh : ∀ f ∈ fs, f ∉ ks) (hfresh' : ∀ f ∈ fs, f ∉ ks')
    (hq : q ∈ (fs.reverse ++ ks).take cap) (hq' : q ∉ (fs.reverse ++ ks').take cap') :
    newAnswers cap ks (fs ++ [q]) ≠ newAnswers cap' ks' (fs ++ [q]) := by
  rw [newAnswers_fresh [q] hks hnd hfresh, newAnswers_fresh [q] hks' hnd hfresh']
  intro h
  have hlast := append_cancel_left h
  simp [newAnswers, isNew_of_mem hq, isNew_of_notMem hq'] at hlast

omit [DecidableEq K] in
/-- The first of the fresh keys is still there iff fewer followed it than fit. -/
theorem first_fresh_mem_iff {cap : Nat} {f : K} {gs ks : List K} (hf : f ∉ gs) :
    f ∈ ((f :: gs).reverse ++ ks).take cap ↔ gs.length < cap := by
  rw [reverse_cons, append_assoc, singleton_append, take_append, length_reverse, mem_append]
  constructor
  · rintro (hold | hnew)
    · exact absurd (mem_reverse.mp (mem_of_mem_take hold)) hf
    · by_contra hle
      rw [Nat.sub_eq_zero_of_le (Nat.le_of_not_lt hle)] at hnew
      exact nomatch hnew
  · intro hlt
    right
    obtain ⟨n, hn⟩ := Nat.exists_eq_add_of_lt hlt
    rw [show cap - gs.length = n + 1 by omega, take_succ_cons]
    exact mem_cons_self

omit [DecidableEq K] in
/-- The oldest key is pushed out once fresh keys and the others fill the cache. -/
theorem oldest_not_mem {cap : Nat} {z : K} {fs ks : List K} (hcap : fs.length + ks.length = cap)
    (hfs : z ∉ fs) (hks : z ∉ ks) : z ∉ (fs.reverse ++ (ks ++ [z])).take cap := by
  have hlen : (fs.reverse ++ ks).length = cap := by
    rw [length_append, length_reverse, hcap]
  rw [← append_assoc, take_left' hlen]
  intro hin
  rcases mem_append.mp hin with hf | hk
  · exact hfs (mem_reverse.mp hf)
  · exact hks hk

omit [DecidableEq K] in
/-- Had the order been reversed, it would have been the most recent of them. -/
theorem oldest_mem_reversed {cap : Nat} {z : K} {fs : List K} (ks : List K)
    (hcap : fs.length < cap) : z ∈ (fs.reverse ++ (ks ++ [z]).reverse).take cap := by
  rw [reverse_append, take_append, length_reverse]
  refine mem_append_right _ ?_
  obtain ⟨n, hn⟩ := Nat.exists_eq_add_of_lt hcap
  rw [show cap - fs.length = n + 1 by omega]
  exact mem_cons_self

end Recency

/-! ## The history of a key -/

section History

/-- The keys in front of `k`: those asked for more recently. -/
def ahead (k : K) (ks : List K) : List K := ks.takeWhile (fun q => decide (q ≠ k))

/-- Nothing is in front of the first. -/
theorem ahead_cons_self (k : K) (ks : List K) : ahead k (k :: ks) = [] := by
  rw [ahead, takeWhile_cons, if_neg (by simp)]

/-- Any other first key is in front. -/
theorem ahead_cons_ne {k q : K} (h : q ≠ k) (ks : List K) :
    ahead k (q :: ks) = q :: ahead k ks := by
  rw [ahead, takeWhile_cons, if_pos (by simpa using h)]
  rfl

/-- Keys that left were in front or behind; nothing comes in front that was not there. -/
theorem ahead_subset_of_sublist {k : K} {ks ks' : List K} (hsub : ks' <+ ks) (hnd : ks.Nodup)
    (hk : k ∈ ks') : ∀ q ∈ ahead k ks', q ∈ ahead k ks := by
  induction hsub with
  | slnil => exact fun q hq => hq
  | cons x hsub ih =>
      obtain ⟨hx, hnd'⟩ := nodup_cons.mp hnd
      intro q hq
      have hne : x ≠ k := fun he => hx (he ▸ hsub.subset hk)
      rw [ahead_cons_ne hne]
      exact mem_cons_of_mem _ (ih hnd' hk q hq)
  | cons_cons x hsub ih =>
      obtain ⟨hx, hnd'⟩ := nodup_cons.mp hnd
      intro q hq
      by_cases hxk : x = k
      · rw [hxk, ahead_cons_self] at hq
        exact absurd hq not_mem_nil
      · rw [ahead_cons_ne hxk] at hq ⊢
        have hk' : k ∈ _ := (mem_cons.mp hk).resolve_left (Ne.symm hxk)
        rcases mem_cons.mp hq with rfl | hq
        · exact mem_cons_self
        · exact mem_cons_of_mem _ (ih hnd' hk' q hq)

/-- The last of distinct keys has all the others in front of it. -/
theorem ahead_of_last {k : K} {ks : List K} (h : k ∉ ks) : ahead k (ks ++ [k]) = ks := by
  induction ks with
  | nil => exact ahead_cons_self k []
  | cons q ks ih =>
      obtain ⟨hne, hks⟩ := not_or.mp (mem_cons.not.mp h)
      rw [cons_append, ahead_cons_ne (Ne.symm hne), ih hks]

/-- `k` is there, and whatever is in front of it is among the keys `recent`. -/
structure Behind (k : K) (recent ks : List K) : Prop where
  mem : k ∈ ks
  newer : ∀ q ∈ ahead k ks, q ∈ recent

/-- The keys after `q` was brought to the front. -/
def refresh (cap : Nat) (ks : List K) (q : K) : List K := (q :: ks.erase q).take cap

section Rules

variable {cap : Nat} {k q : K} {recent ks ks' : List K}

/-- Asked for just now, a key has nothing in front of it. -/
theorem behind_front (hcap : 0 < cap) (ks : List K) : Behind k [] (refresh cap ks k) := by
  obtain ⟨n, rfl⟩ := Nat.exists_eq_succ_of_ne_zero (Nat.ne_of_gt hcap)
  refine ⟨?_, ?_⟩
  · rw [refresh, take_succ_cons]
    exact mem_cons_self
  · rw [refresh, take_succ_cons, ahead_cons_self]
    exact fun q hq => hq

/-- More keys may count as recent. -/
theorem Behind.mono (h : Behind k recent ks) {recent' : List K}
    (hsub : ∀ q ∈ recent, q ∈ recent') : Behind k recent' ks :=
  ⟨h.mem, fun q hq => hsub q (h.newer q hq)⟩

/-- Losing keys brings nothing in front. -/
theorem Behind.sublist (h : Behind k recent ks) (hnd : ks.Nodup) (hsub : ks' <+ ks)
    (hk : k ∈ ks') : Behind k recent ks' :=
  ⟨hk, fun q hq => h.newer q (ahead_subset_of_sublist hsub hnd hk q hq)⟩

/-- A key that comes in front becomes a recent one. -/
theorem Behind.cons (h : Behind k recent ks) (hne : q ≠ k) : Behind k (q :: recent) (q :: ks) := by
  refine ⟨mem_cons_of_mem _ h.mem, ?_⟩
  rw [ahead_cons_ne hne]
  intro x hx
  rcases mem_cons.mp hx with rfl | hx
  · exact mem_cons_self
  · exact mem_cons_of_mem _ (h.newer x hx)

/-- Distinct keys other than `k` out of a list are at most as many as its distinct ones. -/
theorem length_le_card_erase {l : List K} (hnd : l.Nodup) (h : ∀ x ∈ l, x ≠ k ∧ x ∈ recent) :
    l.length ≤ (recent.toFinset.erase k).card := by
  rw [← toFinset_card_of_nodup hnd]
  refine Finset.card_le_card ?_
  intro x hx
  obtain ⟨hne, hmem⟩ := h x (mem_toFinset.mp hx)
  exact Finset.mem_erase.mpr ⟨hne, mem_toFinset.mpr hmem⟩

/-- **WHEN A KEY FALLS OUT**: another key comes to the front.  Either `k` stays, behind one
    more key, or that key was new and `cap` others were asked for since `k` was. -/
theorem Behind.push (h : Behind k recent ks) (hnd : ks.Nodup) (hlen : ks.length ≤ cap)
    (hne : q ≠ k) :
    Behind k (q :: recent) (refresh cap ks q)
      ∨ (k ∉ refresh cap ks q ∧ q ∉ ks
          ∧ cap ≤ ((q :: recent).toFinset.erase k).card) := by
  have hk : k ∈ ks.erase q := (mem_erase_of_ne (Ne.symm hne)).mpr h.mem
  by_cases hfit : (q :: ks.erase q).length ≤ cap
  · rw [refresh, take_of_length_le hfit]
    exact .inl ((h.sublist hnd erase_sublist hk).cons hne)
  · -- only a new key meeting a full list pushes one out, and that is the last one
    have hq : q ∉ ks := by
      intro hin
      rw [length_cons, List.length_erase_of_mem hin] at hfit
      have := length_pos_of_mem hin
      omega
    rw [erase_of_not_mem hq, length_cons] at hfit
    have hfull : cap = ks.length - 1 + 1 := by
      have := length_pos_of_mem h.mem
      omega
    have hkeys : refresh cap ks q = q :: ks.dropLast := by
      rw [refresh, erase_of_not_mem hq, hfull, take_succ_cons, dropLast_eq_take]
    rw [hkeys]
    by_cases hin : k ∈ ks.dropLast
    · exact .inl ((h.sublist hnd (dropLast_sublist ks) hin).cons hne)
    · -- `k` itself was the last: then all the others were in front of it
      right
      have hsplit : ks = ks.dropLast ++ [k] := by
        have hlast := dropLast_append_getLast (ne_nil_of_mem h.mem)
        have hmem := h.mem
        rw [← hlast, mem_append, mem_singleton] at hmem
        rw [hmem.resolve_left hin, hlast]
      have hahead : ahead k ks = ks.dropLast := by
        rw [hsplit, ahead_of_last hin, dropLast_concat]
      refine ⟨?_, hq, ?_⟩
      · intro hmem
        rcases mem_cons.mp hmem with heq | hold
        · exact hne heq.symm
        · exact hin hold
      · have hdistinct : (q :: ks.dropLast).Nodup :=
          nodup_cons.mpr ⟨fun hmem => hq (dropLast_subset ks hmem),
            hnd.sublist (dropLast_sublist ks)⟩
        have hothers : ∀ x ∈ q :: ks.dropLast, x ≠ k ∧ x ∈ q :: recent := by
          intro x hx
          rcases mem_cons.mp hx with rfl | hold
          · exact ⟨hne, mem_cons_self⟩
          · refine ⟨?_, mem_cons_of_mem _ (h.newer x (hahead ▸ hold))⟩
            rintro rfl
            exact hin hold
        have hcount := length_le_card_erase hdistinct hothers
        rw [length_cons, length_dropLast] at hcount
        omega

end Rules

omit [DecidableEq K] in
/-- There are no more keys than the capacity. -/
theorem length_keys_le (c : LruCache K V) : c.map.keys.length ≤ c.cap := by
  show (c.map.entries.map Sigma.fst).length ≤ c.cap
  rw [length_map]
  exact c.size_le

/-- Inserting a key again brings it to the front. -/
theorem keys_insert_of_mem {c : LruCache K V} {k : K} (v : V) (hk : k ∈ c.map) :
    (c.map.insert k v).keys = refresh c.cap c.map.keys k := by
  have hsize := length_keys_le c
  have hpos := length_pos_of_mem (AList.mem_keys.mp hk)
  have hlen : (k :: c.map.keys.erase k).length ≤ c.cap := by
    rw [length_cons, List.length_erase_of_mem (AList.mem_keys.mp hk)]
    omega
  rw [AList.keys_insert, refresh, take_of_length_le hlen]

/-- So does a `put` of a new key. -/
theorem keys_put_refresh {c : LruCache K V} {k : K} (v : V) (hk : k ∉ c.map) :
    (c.put k v).map.keys = refresh c.cap c.map.keys k := by
  have hnot : k ∉ c.map.keys := fun h => hk (AList.mem_keys.mpr h)
  rw [keys_put_of_notMem v hk, remember, if_neg hnot, refresh, erase_of_not_mem hnot]

/-- Popping leaves the order of the rest. -/
theorem keys_popAll_sublist (c : LruCache K V) (ks : List K) :
    (c.popAll ks).map.keys <+ c.map.keys := by
  induction ks generalizing c with
  | nil => exact Sublist.refl _
  | cons k ks ih =>
      have hpop : (c.pop k).map.keys <+ c.map.keys := by
        rw [LruCache.pop_map, AList.keys_erase]
        exact erase_sublist
      exact (ih (c.pop k)).trans hpop

end History

/-! ## Weighing a map -/

section Weight

variable {R : Type} [AddCommMonoid R]

/-- The sum of a weight over all entries. -/
def weight (f : V → R) (m : Assoc K V) : R := (m.entries.map (fun e => f e.2)).sum

omit [DecidableEq K] in
@[simp] theorem weight_empty (f : V → R) : weight f (∅ : Assoc K V) = 0 := rfl

/-- A new entry adds its weight. -/
theorem weight_insert_of_notMem (f : V → R) {k : K} (v : V) {m : Assoc K V} (h : k ∉ m) :
    weight f (m.insert k v) = f v + weight f m := by
  unfold weight
  rw [AList.entries_insert_of_notMem h, map_cons, sum_cons]

/-- Removing a binding removes its weight. -/
theorem weight_erase (f : V → R) {k : K} {v : V} {m : Assoc K V} (h : m.lookup k = some v) :
    f v + weight f (m.erase k) = weight f m := by
  obtain ⟨b, l₁, l₂, hnot, hl, he⟩ :=
    exists_of_kerase (AList.mem_keys.mp (mem_iff_lookup.mpr ⟨v, h⟩))
  have hb : b = v := by
    have hmem : (⟨k, b⟩ : Σ _ : K, V) ∈ m.entries := by rw [hl]; simp
    exact Option.some.inj ((lookup_eq_some_iff.mpr hmem).symm.trans h)
  subst hb
  show f b + ((kerase k m.entries).map (fun e => f e.2)).sum
    = (m.entries.map (fun e => f e.2)).sum
  rw [he, hl]
  simp only [map_append, map_cons, sum_append, sum_cons]
  exact add_left_comm _ _ _

/-- Rewriting a binding swaps its weight. -/
theorem weight_insert_of_lookup (f : V → R) {k : K} {old : V} (v : V) {m : Assoc K V}
    (h : m.lookup k = some old) :
    f old + weight f (m.insert k v) = f v + weight f m := by
  have hins : weight f (m.insert k v) = f v + weight f (m.erase k) := by
    unfold weight
    rw [AList.entries_insert, map_cons, sum_cons]
    rfl
  rw [hins, add_left_comm, weight_erase f h]

omit [DecidableEq K] in
/-- A uniform gain is counted once an entry. -/
theorem weight_add_const (f : V → R) (r : R) (m : Assoc K V) :
    weight (fun v => f v + r) m = weight f m + m.entries.length • r := by
  unfold weight
  induction m.entries with
  | nil => simp
  | cons e l ih =>
      simp only [map_cons, sum_cons, length_cons, ih, succ_nsmul]
      rw [add_add_add_comm, add_comm r (l.length • r)]

variable [PartialOrder R] [IsOrderedAddMonoid R]

omit [DecidableEq K] in
/-- Weights that are not negative add up to one that is not. -/
theorem weight_nonneg {f : V → R} (hf : ∀ v, 0 ≤ f v) (m : Assoc K V) : 0 ≤ weight f m := by
  refine sum_nonneg ?_
  intro r hr
  obtain ⟨e, -, rfl⟩ := mem_map.mp hr
  exact hf e.2

omit [DecidableEq K] in
/-- Entrywise comparison. -/
theorem weight_le_weight {f g : V → R} {m : Assoc K V}
    (h : ∀ e ∈ m.entries, f e.2 ≤ g e.2) : weight f m ≤ weight g m :=
  sum_le_sum h

omit [DecidableEq K] in
/-- Fewer entries weigh no more. -/
theorem weight_le_of_sublist {f : V → R} (hf : ∀ v, 0 ≤ f v) {m m' : Assoc K V}
    (h : m'.entries <+ m.entries) : weight f m' ≤ weight f m := by
  refine (h.map (fun e : Σ _ : K, V => f e.2)).sum_le_sum ?_
  intro r hr
  obtain ⟨e, -, rfl⟩ := mem_map.mp hr
  exact hf e.2

/-- A new entry adds at most its own weight: what it displaces is gone. -/
theorem weight_put_le {f : V → R} (hf : ∀ v, 0 ≤ f v) {c : LruCache K V} {k : K} (v : V)
    (hk : k ∉ c.map) : weight f (c.put k v).map ≤ f v + weight f c.map := by
  by_cases hr : c.len < c.cap
  · rw [LruCache.put_map_of_room v hk hr, weight_insert_of_notMem f v hk]
  · rw [LruCache.put_map_of_full v hk (Nat.le_antisymm c.size_le (Nat.le_of_not_lt hr)),
      weight_insert_of_notMem f v (fun h => hk (mem_of_mem_dropLru h))]
    have hsub : (dropLru c.map).entries <+ c.map.entries := dropLast_sublist c.map.entries
    exact add_le_add_right (weight_le_of_sublist hf hsub) (f v)

end Weight

end LruMap
