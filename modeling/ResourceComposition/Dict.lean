/-!
# Dictionaries

A dictionary is a list of entries in increasing order of key. Keys compare by code points,
so the order of a dictionary is the order in which its entries are written out.

Reading takes the first entry of a key. Writing replaces that entry, or puts a new one before
the first greater key, so a dictionary that is built by writing stays in order.
`get?_insert` and `get?_erase` are the two laws of a finite map, and `insert_insert` and
`insert_comm` say that what counts of several writings is the last under each key; they hold of every
list of entries, in order or not.
-/

namespace ResourceComposition

/-- Entries in increasing order of key. -/
abbrev Dict (β : Type) : Type := List (String × β)

namespace Dict

variable {β γ : Type}

/-- The value under a key, if there is one. -/
def get? : Dict β → String → Option β
  | [], _ => none
  | (key, value) :: rest, k => if key = k then some value else get? rest k

/-- Whether there is an entry for a key. -/
def contains (d : Dict β) (k : String) : Bool := (get? d k).isSome

/-- Put a value under a key, in place of the one that was there. -/
def insert (k : String) (v : β) : Dict β → Dict β
  | [] => [(k, v)]
  | (key, value) :: rest =>
    if key = k then (k, v) :: rest
    else if k < key then (k, v) :: (key, value) :: rest
    else (key, value) :: insert k v rest

/-- Put a value under a key if there is one. -/
def insert? (k : String) : Option β → Dict β → Dict β
  | some v, d => insert k v d
  | none, d => d

/-- Put a value under a key that has none. -/
def insertIfNew (k : String) (v : β) (d : Dict β) : Dict β :=
  if d.contains k then d else insert k v d

/-- Remove a key. -/
def erase (k : String) (d : Dict β) : Dict β := d.filter fun entry => entry.1 ≠ k

/-- Write all entries of `source` into `target`, first to last. -/
def insertAll (target source : Dict β) : Dict β :=
  source.foldl (fun d entry => insert entry.1 entry.2 d) target

/-- The dictionary of a list of entries; of two entries with one key the later counts. -/
def ofList (entries : List (String × β)) : Dict β := insertAll [] entries

/-- Apply a function to every value. -/
def mapValues (f : β → γ) (d : Dict β) : Dict γ := d.map fun entry => (entry.1, f entry.2)

@[simp] theorem get?_nil (k : String) : get? ([] : Dict β) k = none := rfl

theorem get?_cons (key k : String) (value : β) (rest : Dict β) :
    get? ((key, value) :: rest) k = if key = k then some value else get? rest k := rfl

theorem insert_cons (key k : String) (value v : β) (rest : Dict β) :
    insert k v ((key, value) :: rest) = if key = k then (k, v) :: rest
      else if k < key then (k, v) :: (key, value) :: rest
      else (key, value) :: insert k v rest := rfl

/-- What was just written is read back, and all other keys are as before. -/
theorem get?_insert (k k' : String) (v : β) (d : Dict β) :
    get? (insert k v d) k' = if k = k' then some v else get? d k' := by
  induction d with
  | nil => rfl
  | cons entry rest ih =>
    obtain ⟨key, value⟩ := entry
    unfold insert
    split
    · next h => subst h; simp only [get?_cons]; split <;> rfl
    · next h =>
      split
      · simp only [get?_cons]
      · simp only [get?_cons, ih]
        split
        · next h' => subst h'; rw [if_neg (Ne.symm h)]
        · rfl

@[simp] theorem get?_insert_self (k : String) (v : β) (d : Dict β) :
    get? (insert k v d) k = some v := by simp [get?_insert]

theorem get?_insert_of_ne {k k' : String} (v : β) (d : Dict β) (h : k ≠ k') :
    get? (insert k v d) k' = get? d k' := by simp [get?_insert, h]

/-- Of two values that are put under one key the later stands there. -/
theorem insert_insert (k : String) (v w : β) (d : Dict β) :
    insert k v (insert k w d) = insert k v d := by
  induction d with
  | nil => simp [insert]
  | cons entry rest ih =>
    obtain ⟨key, value⟩ := entry
    rw [insert_cons, insert_cons]
    by_cases hk : key = k
    · rw [if_pos hk, if_pos hk, insert_cons, if_pos rfl]
    · rw [if_neg hk, if_neg hk]
      split
      · rw [insert_cons, if_pos rfl]
      · next hlt => rw [insert_cons, if_neg hk, if_neg hlt, ih]

theorem insert_comm_of_lt {k k' : String} (h : k < k') (v v' : β) (d : Dict β) :
    insert k v (insert k' v' d) = insert k' v' (insert k v d) := by
  have hne : k ≠ k' := fun heq => String.lt_irrefl k' (heq ▸ h)
  have hback : ¬ k' < k := String.lt_asymm h
  induction d with
  | nil => simp [insert, hne, hne.symm, h, hback]
  | cons entry rest ih =>
    obtain ⟨key, value⟩ := entry
    rw [insert_cons key k' value v', insert_cons key k value v]
    by_cases hk : key = k
    · subst hk
      simp [insert_cons, hne, hback]
    · by_cases hlt : k < key
      · -- The first key goes to the front, whatever comes of the other.
        rw [if_neg hk, if_pos hlt, insert_cons k k', if_neg hne, if_neg hback, insert_cons key k']
        split
        · next hk' => subst hk'; rw [insert_cons, if_neg (Ne.symm hne), if_pos h]
        · split
          · rw [insert_cons, if_neg (Ne.symm hne), if_pos h]
          · rw [insert_cons, if_neg hk, if_pos hlt]
      · have hbefore : key < k := Std.lt_of_le_of_ne (String.not_lt.mp hlt) hk
        have hbefore' : key < k' := String.lt_trans hbefore h
        have hk' : key ≠ k' := fun heq => String.lt_irrefl key (heq ▸ hbefore')
        rw [if_neg hk, if_neg hlt, if_neg hk', if_neg (String.lt_asymm hbefore'), insert_cons, if_neg hk,
          if_neg hlt, insert_cons, if_neg hk', if_neg (String.lt_asymm hbefore'), ih]

/-- The order in which values are put under two keys does not matter. -/
theorem insert_comm {k k' : String} (h : k ≠ k') (v v' : β) (d : Dict β) :
    insert k v (insert k' v' d) = insert k' v' (insert k v d) := by
  by_cases hlt : k < k'
  · exact insert_comm_of_lt hlt v v' d
  · have hlt' : k' < k := Std.lt_of_le_of_ne (String.not_lt.mp hlt) (Ne.symm h)
    exact (insert_comm_of_lt hlt' v' v d).symm

theorem insertIfNew_of_get? {k : String} {w : β} {d : Dict β} (h : get? d k = some w) (v : β) :
    insertIfNew k v d = d := by simp [insertIfNew, contains, h]

theorem insertIfNew_of_get?_eq_none {k : String} {d : Dict β} (h : get? d k = none) (v : β) :
    insertIfNew k v d = insert k v d := by simp [insertIfNew, contains, h]

theorem getD_insertIfNew (k : String) (v : β) (d : Dict β) :
    (get? (insertIfNew k v d) k).getD v = (get? d k).getD v := by
  cases h : get? d k with
  | none => rw [insertIfNew_of_get?_eq_none h, get?_insert_self]; rfl
  | some w => rw [insertIfNew_of_get? h, h]

theorem insert_insertIfNew (k : String) (v w : β) (d : Dict β) :
    insert k v (insertIfNew k w d) = insert k v d := by
  cases h : get? d k with
  | none => rw [insertIfNew_of_get?_eq_none h, insert_insert]
  | some w' => rw [insertIfNew_of_get? h]

/-- A removed key is gone, and all others are as before. -/
theorem get?_erase (k k' : String) (d : Dict β) :
    get? (erase k d) k' = if k = k' then none else get? d k' := by
  induction d with
  | nil => simp [erase]
  | cons entry rest ih =>
    obtain ⟨key, value⟩ := entry
    by_cases hk : key = k
    · subst hk
      rw [show erase key ((key, value) :: rest) = erase key rest by simp [erase], ih, get?_cons]
      split <;> rfl
    · rw [show erase k ((key, value) :: rest) = (key, value) :: erase k rest by simp [erase, hk],
        get?_cons, get?_cons, ih]
      split
      · next h => subst h; rw [if_neg (Ne.symm hk)]
      · rfl

end Dict

end ResourceComposition
