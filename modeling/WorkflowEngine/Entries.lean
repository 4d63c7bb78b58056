/-!
# Entries

Tables kept as rows of key and value in the order in which the keys arrived. Writing a key that is
already there changes its value in place; a new key goes to the end. Core's `List.lookup` reads.
-/

namespace WorkflowEngine.Entries

variable {κ α : Type} [BEq κ]

/-- Writes a value under a key. -/
def put (k : κ) (v : α) : List (κ × α) → List (κ × α)
  | [] => [(k, v)]
  | (k', v') :: rest => if k == k' then (k', v) :: rest else (k', v') :: put k v rest

/-- Writes every entry of the second table into the first, in order. -/
def putAll (base : List (κ × α)) (news : List (κ × α)) : List (κ × α) :=
  news.foldl (fun acc e => put e.1 e.2 acc) base

/-- Removes a key. -/
def erase (k : κ) (entries : List (κ × α)) : List (κ × α) := entries.filter fun e => !(k == e.1)

/-- Whether a key is present. -/
def contains (k : κ) (entries : List (κ × α)) : Bool := entries.any fun e => k == e.1

/-- The table of a row of entries, a later entry of a key overwriting an earlier one. -/
def ofList (entries : List (κ × α)) : List (κ × α) := putAll [] entries

/-- A key that is there stays in its place, and a new one goes to the end. -/
theorem keys_put (k : κ) (v : α) (entries : List (κ × α)) : (put k v entries).map Prod.fst =
    if (entries.lookup k).isSome then entries.map Prod.fst else entries.map Prod.fst ++ [k] := by
  induction entries with
  | nil => rfl
  | cons e rest ih =>
    obtain ⟨key, value⟩ := e
    unfold put
    cases hkey : k == key with
    | true => simp [List.lookup_cons, hkey]
    | false =>
      simp only [List.map_cons, ih, List.lookup_cons, hkey, Bool.false_eq_true, if_false]
      split <;> rfl

/-- Of two values written under a key the later one counts. -/
theorem put_put [ReflBEq κ] (k : κ) (v v' : α) (entries : List (κ × α)) :
    put k v' (put k v entries) = put k v' entries := by
  induction entries with
  | nil => simp [put]
  | cons e rest ih =>
    obtain ⟨key, value⟩ := e
    cases hkey : k == key with
    | true => simp [put, hkey]
    | false => simp [put, hkey, ih]

/-- Dropping a key and leaving out some keys may change places. -/
theorem filter_erase (within : κ → Bool) (k : κ) (entries : List (κ × α)) :
    (erase k entries).filter (fun e => within e.1) =
      erase k (entries.filter fun e => within e.1) := by
  rw [erase, erase, List.filter_filter, List.filter_filter]
  exact List.filter_congr fun e _ => Bool.and_comm _ _

theorem erase_of_absent {k : κ} {entries : List (κ × α)} (h : contains k entries = false) :
    erase k entries = entries := by
  rw [contains, List.any_eq_false] at h
  exact List.filter_eq_self.2 fun e he => by simpa using h e he

variable [LawfulBEq κ]

theorem lookup_put (k k' : κ) (v : α) (entries : List (κ × α)) :
    (put k v entries).lookup k' = if k' == k then some v else entries.lookup k' := by
  induction entries with
  | nil =>
    simp only [put, List.lookup_cons]
    cases k' == k <;> rfl
  | cons e rest ih =>
    obtain ⟨key, value⟩ := e
    unfold put
    split
    · rename_i h
      have hk : k = key := eq_of_beq h
      subst hk
      simp only [List.lookup_cons]
      cases h' : k' == k <;> simp
    · rename_i h
      simp only [List.lookup_cons]
      cases h' : k' == key with
      | false => simpa using ih
      | true =>
        have hk : k' = key := eq_of_beq h'
        have : (k' == k) = false := by
          cases hc : k' == k with
          | false => rfl
          | true =>
            have hk' : k' = k := eq_of_beq hc
            exact absurd (by rw [← hk', hk]; exact beq_self_eq_true key) h
        simp [this]

theorem mem_keys_iff {k : κ} {entries : List (κ × α)} :
    k ∈ entries.map Prod.fst ↔ (entries.lookup k).isSome = true := by
  simp [List.lookup_isSome_iff, List.mem_map]

theorem mem_of_lookup {k : κ} {v : α} {entries : List (κ × α)} (h : entries.lookup k = some v) :
    (k, v) ∈ entries := by
  obtain ⟨before, after, hentries, _⟩ := List.lookup_eq_some_iff.1 h
  exact hentries ▸ List.mem_append_right before List.mem_cons_self

/-- Where keys are distinct, each entry is the one under its key. -/
theorem lookup_of_mem {entries : List (κ × α)} (h : (entries.map Prod.fst).Nodup) {e : κ × α}
    (he : e ∈ entries) : entries.lookup e.1 = some e.2 := by
  induction entries with
  | nil => cases he
  | cons e' rest ih =>
    obtain ⟨hnew, hrest⟩ := List.nodup_cons.1 h
    rcases List.mem_cons.1 he with rfl | he
    · rw [List.lookup_cons, beq_self_eq_true]
    · have hne : (e.1 == e'.1) = false := by
        rw [beq_eq_false_iff_ne]
        rintro heq
        exact hnew (heq ▸ List.mem_map_of_mem he)
      rw [List.lookup_cons, hne]
      exact ih hrest he

theorem contains_iff (k : κ) (entries : List (κ × α)) :
    contains k entries = true ↔ (entries.lookup k).isSome = true := by
  simp [contains, List.lookup_isSome_iff]

theorem contains_put (k k' : κ) (v : α) (entries : List (κ × α)) :
    contains k' (put k v entries) = true ↔ k' = k ∨ contains k' entries = true := by
  rw [contains_iff, contains_iff, lookup_put]
  by_cases h : k' = k
  · simp [h]
  · simp [h]

/-- A key is there behind a further entry if it was there before or is that entry's. -/
theorem contains_concat (k k' : κ) (v : α) (entries : List (κ × α)) :
    contains k' (entries ++ [(k, v)]) = true ↔ contains k' entries = true ∨ k' = k := by
  simp [contains]

/-- A value that is found with a further entry was found before or is that entry's. -/
theorem lookup_concat {k k' : κ} {v v' : α} {entries : List (κ × α)}
    (h : (entries ++ [(k, v)]).lookup k' = some v') :
    entries.lookup k' = some v' ∨ k' = k ∧ v' = v := by
  rw [List.lookup_append] at h
  cases hold : entries.lookup k' with
  | some old =>
    rw [hold] at h
    exact .inl h
  | none =>
    rw [hold, Option.none_or, List.lookup_cons] at h
    split at h
    · rename_i heq
      cases h
      exact .inr ⟨eq_of_beq heq, rfl⟩
    · cases h

theorem mem_put {k : κ} {v : α} {e : κ × α} {entries : List (κ × α)} (h : e ∈ put k v entries) :
    e = (k, v) ∨ e ∈ entries := by
  induction entries with
  | nil => exact .inl (List.mem_singleton.1 h)
  | cons e' rest ih =>
    obtain ⟨key, value⟩ := e'
    unfold put at h
    split at h
    · rename_i heq
      rcases List.mem_cons.1 h with rfl | h
      · exact .inl (by rw [eq_of_beq heq])
      · exact .inr (List.mem_cons_of_mem _ h)
    · rcases List.mem_cons.1 h with rfl | h
      · exact .inr List.mem_cons_self
      · exact (ih h).imp_right (List.mem_cons_of_mem _)

theorem nodup_put {entries : List (κ × α)} (h : (entries.map Prod.fst).Nodup) (k : κ) (v : α) :
    ((put k v entries).map Prod.fst).Nodup := by
  rw [keys_put]
  split
  · exact h
  · rename_i hnew
    rw [List.nodup_append]
    refine ⟨h, by simp, fun key hkey last hlast => ?_⟩
    rw [List.mem_singleton.1 hlast]
    rintro rfl
    exact hnew (mem_keys_iff.1 hkey)

/-- What is written under a key is dropped with it. -/
theorem erase_put (k : κ) (v : α) (entries : List (κ × α)) :
    erase k (put k v entries) = erase k entries := by
  induction entries with
  | nil => simp [erase, put]
  | cons e rest ih =>
    obtain ⟨key, value⟩ := e
    by_cases hkey : k = key
    · simp [erase, put, hkey]
    · rw [erase, erase] at ih
      simp [erase, put, hkey, ih]

/-- What is under a key does not depend on the entries of other keys. -/
theorem lookup_filter {within : κ → Bool} {k : κ} (hk : within k = true)
    (entries : List (κ × α)) :
    (entries.filter fun e => within e.1).lookup k = entries.lookup k := by
  induction entries with
  | nil => rfl
  | cons e rest ih =>
    obtain ⟨key, value⟩ := e
    cases hkey : within key with
    | true => simp only [List.filter_cons, hkey, if_true, List.lookup_cons, ih]
    | false =>
      have hne : (k == key) = false := by
        rw [beq_eq_false_iff_ne]
        rintro rfl
        exact Bool.false_ne_true (hkey.symm.trans hk)
      simp only [List.filter_cons, hkey, Bool.false_eq_true, if_false, ih, List.lookup_cons, hne]

theorem filter_put {within : κ → Bool} {k : κ} (hk : within k = true) (v : α)
    (entries : List (κ × α)) :
    (put k v entries).filter (fun e => within e.1) =
      put k v (entries.filter fun e => within e.1) := by
  induction entries with
  | nil => simp [put, hk]
  | cons e rest ih =>
    obtain ⟨key, value⟩ := e
    by_cases hkey : k = key
    · subst hkey
      simp [put, hk]
    · cases hwithin : within key with
      | true => simp [put, hkey, hwithin, ih]
      | false => simp [put, hkey, hwithin, ih]

/-- What is written under a key that is left out is left out. -/
theorem filter_put_outside {within : κ → Bool} {k : κ} (hk : within k = false) (v : α)
    (entries : List (κ × α)) :
    (put k v entries).filter (fun e => within e.1) = entries.filter fun e => within e.1 := by
  have hgone : ∀ es : List (κ × α), (erase k es).filter (fun e => within e.1) =
      es.filter fun e => within e.1 := by
    intro es
    rw [filter_erase, erase, List.filter_eq_self]
    intro e he
    have hne : k ≠ e.1 := by
      rintro rfl
      exact Bool.false_ne_true (hk.symm.trans (List.mem_filter.1 he).2)
    simpa using hne
  rw [← hgone, erase_put, hgone]

theorem lookup_erase (k k' : κ) (entries : List (κ × α)) :
    (erase k entries).lookup k' = if k' == k then none else entries.lookup k' := by
  by_cases h : k' = k
  · subst h
    simp [erase, List.lookup_eq_none_iff]
  · rw [if_neg (by simpa using h)]
    exact @lookup_filter _ _ _ _ (fun key => !(k == key)) _ (by simpa using Ne.symm h) entries

/-- Writing some entries into a table with distinct keys leaves them distinct and adds no others. -/
theorem putAll_spec {base : List (κ × α)} (h : (base.map Prod.fst).Nodup)
    (news : List (κ × α)) : ((putAll base news).map Prod.fst).Nodup ∧
      ∀ e ∈ putAll base news, e ∈ base ∨ e ∈ news := by
  induction news generalizing base with
  | nil => exact ⟨h, fun e he => .inl he⟩
  | cons e rest ih =>
    obtain ⟨hnodup, hmem⟩ := ih (nodup_put h e.1 e.2)
    refine ⟨hnodup, fun e' he' => ?_⟩
    rcases hmem e' he' with hput | hrest
    · rcases mem_put hput with rfl | hbase
      · exact .inr List.mem_cons_self
      · exact .inl hbase
    · exact .inr (List.mem_cons_of_mem _ hrest)

/-- What is under a key is left as it is by entries with other keys. -/
theorem lookup_putAll {base news : List (κ × α)} {k : κ} (h : k ∉ news.map Prod.fst) :
    (putAll base news).lookup k = base.lookup k := by
  induction news generalizing base with
  | nil => rfl
  | cons e rest ih =>
    obtain ⟨hkey, hrest⟩ := not_or.1 (mt List.mem_cons.2 h)
    rw [putAll, List.foldl_cons]
    exact (ih hrest).trans (by rw [lookup_put, if_neg (by simpa using hkey)])

/-- The keys of a table made of a row of entries are distinct, and its entries are of the row. -/
theorem ofList_spec (entries : List (κ × α)) :
    ((ofList entries).map Prod.fst).Nodup ∧ ∀ e ∈ ofList entries, e ∈ entries := by
  have hnone : (([] : List (κ × α)).map Prod.fst).Nodup := List.nodup_nil
  obtain ⟨hnodup, hmem⟩ := putAll_spec hnone entries
  exact ⟨hnodup, fun e he => (hmem e he).resolve_left List.not_mem_nil⟩

theorem put_of_new {k : κ} {v : α} {entries : List (κ × α)} (h : k ∉ entries.map Prod.fst) :
    put k v entries = entries ++ [(k, v)] := by
  induction entries with
  | nil => rfl
  | cons e rest ih =>
    obtain ⟨key, value⟩ := e
    obtain ⟨hkey, hrest⟩ := not_or.1 (mt List.mem_cons.2 h)
    rw [put, if_neg (by simpa using hkey), ih hrest, List.cons_append]

/-- Entries with distinct keys are the table they make. -/
theorem ofList_of_nodup {entries : List (κ × α)} (h : (entries.map Prod.fst).Nodup) :
    ofList entries = entries := by
  suffices hall : ∀ base : List (κ × α), ((base ++ entries).map Prod.fst).Nodup →
      putAll base entries = base ++ entries from hall [] h
  clear h
  induction entries with
  | nil => exact fun base _ => (List.append_nil base).symm
  | cons e rest ih =>
    intro base h
    rw [List.append_cons] at h ⊢
    have hnew : e.1 ∉ base.map Prod.fst := by
      rw [List.map_append, List.map_append, List.append_assoc, List.nodup_append] at h
      exact fun hmem => h.2.2 e.1 hmem e.1 (by simp) rfl
    rw [← ih (base ++ [e]) h, putAll, List.foldl_cons, put_of_new hnew, putAll]

end WorkflowEngine.Entries
