import Mathlib.Data.Rat.Defs
import Mathlib.Data.List.Pairwise
import Mathlib.Data.List.Infix
import Mathlib.Data.List.Sort

set_option autoImplicit false

/-! # Python values

The values that Python makes of a JSON text, and the built-in operations on them: truth value
and `or`, `list(x)`, `dict(x)`, `d.get(k)`, `s in x`, `sorted({…})`, each with the exceptions
it raises. A dict is the list of its items in insertion order (`DistinctKeys`); its
keys are the hashable values. Integers and floats are the rationals they stand for, so that
`1`, `1.0` and `True` are the same key.
-/

namespace PyValue

/-- The exceptions of the built-ins, and those that a program raises itself. -/
inductive Exc (ε : Type)
  | typeError
  | valueError
  | attributeError
  | keyError
  | raised (e : ε)
  deriving DecidableEq

section Except

variable {α β ε : Type}

@[simp] theorem ok_bind (a : α) (f : α → Except ε β) : Except.ok a >>= f = f a := rfl

@[simp] theorem error_bind (e : ε) (f : α → Except ε β) :
    (Except.error e : Except ε α) >>= f = .error e := rfl

theorem bind_ok_iff {x : Except ε α} {f : α → Except ε β} {b : β} :
    x >>= f = .ok b ↔ ∃ a, x = .ok a ∧ f a = .ok b := by
  cases x with
  | error e => exact ⟨nofun, fun ⟨_, h, _⟩ => nomatch h⟩
  | ok a => exact ⟨fun h => ⟨a, rfl, h⟩, fun ⟨_, h, hf⟩ => by cases h; exact hf⟩

theorem bind_error_iff {x : Except ε α} {f : α → Except ε β} {e : ε} :
    x >>= f = .error e ↔ x = .error e ∨ ∃ a, x = .ok a ∧ f a = .error e := by
  cases x with
  | error e' =>
      constructor
      · intro h
        have he : (Except.error e' : Except ε β) = .error e := h
        exact Or.inl (congrArg Except.error (Except.error.inj he))
      · rintro (h | ⟨_, h, _⟩)
        · exact congrArg Except.error (Except.error.inj h)
        · cases h
  | ok a =>
      constructor
      · intro h
        exact Or.inr ⟨a, rfl, h⟩
      · rintro (h | ⟨_, h, hf⟩)
        · cases h
        · cases h
          exact hf

theorem map_ok {x : Except ε α} {f : α → β} {b : β} (h : x.map f = .ok b) :
    ∃ a, x = .ok a ∧ f a = b := by
  cases x with
  | error e => cases h
  | ok a => exact ⟨a, rfl, Except.ok.inj h⟩

end Except

/-! ## Hashable values -/

inductive Key
  | none
  | bool (b : Bool)
  | num (q : ℚ)
  | str (s : String)
  deriving DecidableEq

/-- The number a key stands for; `bool` is a subclass of `int`. -/
def Key.number? : Key → Option ℚ
  | .bool b => some (if b then 1 else 0)
  | .num q => some q
  | _ => Option.none

def Key.string? : Key → Option String
  | .str s => some s
  | _ => Option.none

/-- `a == b` -/
def Key.same (a b : Key) : Bool :=
  match a, b with
  | .none, .none => true
  | .str s, .str t => s = t
  | a, b =>
      match a.number?, b.number? with
      | some x, some y => x = y
      | _, _ => false

@[simp] theorem Key.same_refl (k : Key) : k.same k = true := by
  cases k <;> simp [Key.same, Key.number?]

@[simp] theorem Key.same_str (s t : String) : Key.same (.str s) (.str t) = decide (s = t) := rfl

/-- `a <= b` of two numbers or two strings -/
def Key.le (a b : Key) : Bool :=
  match a.number?, b.number? with
  | some x, some y => x ≤ y
  | _, _ =>
      match a.string?, b.string? with
      | some s, some t => s ≤ t
      | _, _ => false

/-! ## Dicts -/

section Dict

variable {α : Type}

/-- No key of a dict occurs twice. -/
def DistinctKeys (d : List (Key × α)) : Prop := d.Pairwise fun a b => a.1.same b.1 = false

theorem distinctKeys_iff {d : List (Key × α)} :
    DistinctKeys d ↔ (d.map Prod.fst).Pairwise fun a b => a.same b = false := by
  rw [DistinctKeys, List.pairwise_map]

/-- `d.get(k)` -/
def item (d : List (Key × α)) (k : Key) : Option α :=
  match d with
  | [] => none
  | (k', v) :: rest => if k'.same k then some v else item rest k

/-- `k in d` -/
def hasKey (d : List (Key × α)) (k : Key) : Bool := d.any fun e => e.1.same k

/-- `d[k] = v` -/
def setItem (d : List (Key × α)) (k : Key) (v : α) : List (Key × α) :=
  match d with
  | [] => [(k, v)]
  | (k', v') :: rest => if k'.same k then (k', v) :: rest else (k', v') :: setItem rest k v

theorem mem_of_item {d : List (Key × α)} {k : Key} {v : α} (h : item d k = some v) :
    ∃ k', k'.same k = true ∧ (k', v) ∈ d := by
  induction d with
  | nil => cases h
  | cons e rest ih =>
      obtain ⟨k', v'⟩ := e
      rw [item] at h
      split at h
      · rename_i hk
        obtain rfl : v' = v := Option.some.inj h
        exact ⟨k', hk, List.mem_cons_self⟩
      · obtain ⟨k'', hk, hm⟩ := ih h
        exact ⟨k'', hk, List.mem_cons_of_mem _ hm⟩

theorem item_isSome (d : List (Key × α)) (k : Key) : (item d k).isSome = hasKey d k := by
  induction d with
  | nil => rfl
  | cons e rest ih =>
      obtain ⟨k', v⟩ := e
      rw [item, hasKey, List.any_cons]
      cases hk : k'.same k with
      | true => simp
      | false => simpa [hasKey] using ih

/-- Every item of a dict is found under its key. -/
theorem item_of_mem {d : List (Key × α)} (hd : DistinctKeys d) {k : Key} {v : α}
    (h : (k, v) ∈ d) : item d k = some v := by
  induction d with
  | nil => cases h
  | cons e rest ih =>
      obtain ⟨k', v'⟩ := e
      obtain ⟨hne, hrest⟩ := List.pairwise_cons.mp hd
      rcases List.mem_cons.mp h with h | h
      -- the first item with the key
      · cases h
        simp [item]
      · have hk : k'.same k = false := hne _ h
        simp [item, hk, ih hrest h]

theorem setItem_of_not_hasKey {d : List (Key × α)} {k : Key} (h : hasKey d k = false) (v : α) :
    setItem d k v = d ++ [(k, v)] := by
  induction d with
  | nil => rfl
  | cons e rest ih =>
      obtain ⟨k', v'⟩ := e
      obtain ⟨hk, hrest⟩ : k'.same k = false ∧ hasKey rest k = false := by
        simpa [hasKey] using h
      simp [setItem, hk, ih hrest]

theorem hasKey_append (d₁ d₂ : List (Key × α)) (k : Key) :
    hasKey (d₁ ++ d₂) k = (hasKey d₁ k || hasKey d₂ k) := List.any_append

theorem DistinctKeys.append {d : List (Key × α)} (hd : DistinctKeys d) {k : Key} {v : α}
    (h : hasKey d k = false) : DistinctKeys (d ++ [(k, v)]) := by
  refine List.pairwise_append.mpr ⟨hd, List.pairwise_singleton _ _, fun a ha b hb => ?_⟩
  obtain rfl : b = (k, v) := List.mem_singleton.mp hb
  exact Bool.eq_false_iff.mpr (List.any_eq_false.mp h a ha)

theorem DistinctKeys.hasKey_eq_false {d₁ d₂ : List (Key × α)} {e : Key × α}
    (h : DistinctKeys (d₁ ++ e :: d₂)) : hasKey d₁ e.1 = false := by
  refine List.any_eq_false.mpr fun e' he' => ?_
  have := (List.pairwise_append.mp h).2.2 e' he' e List.mem_cons_self
  simp [this]

/-- The keys that are left are new after the first of them has been added. -/
theorem DistinctKeys.new_after {β : Type} {k : Key} {b : β} {rest : List (Key × β)}
    (hd : DistinctKeys ((k, b) :: rest)) {d : List (Key × α)}
    (hnew : ∀ e ∈ (k, b) :: rest, hasKey d e.1 = false) (a : α) :
    ∀ e ∈ rest, hasKey (d ++ [(k, a)]) e.1 = false := by
  intro e he
  have hne : k.same e.1 = false := (List.pairwise_cons.mp hd).1 e he
  rw [hasKey_append, hnew e (List.mem_cons_of_mem _ he)]
  simp [hasKey, hne]

/-- What an assignment leaves in a dict: an old item, or an item with the new value. -/
theorem mem_setItem {d : List (Key × α)} {k : Key} {v : α} {e : Key × α}
    (h : e ∈ setItem d k v) : e ∈ d ∨ e.2 = v ∧ (e.1 = k ∨ ∃ e' ∈ d, e'.1 = e.1) := by
  induction d with
  | nil =>
      obtain rfl : e = (k, v) := List.mem_singleton.mp h
      exact Or.inr ⟨rfl, Or.inl rfl⟩
  | cons e₀ rest ih =>
      obtain ⟨k₀, v₀⟩ := e₀
      rw [setItem] at h
      split at h
      · rcases List.mem_cons.mp h with rfl | h
        · exact Or.inr ⟨rfl, Or.inr ⟨_, List.mem_cons_self, rfl⟩⟩
        · exact Or.inl (List.mem_cons_of_mem _ h)
      · rcases List.mem_cons.mp h with rfl | h
        · exact Or.inl List.mem_cons_self
        · rcases ih h with h | ⟨hv, hk | ⟨e', he', hk⟩⟩
          · exact Or.inl (List.mem_cons_of_mem _ h)
          · exact Or.inr ⟨hv, Or.inl hk⟩
          · exact Or.inr ⟨hv, Or.inr ⟨e', List.mem_cons_of_mem _ he', hk⟩⟩

theorem DistinctKeys.setItem {d : List (Key × α)} (hd : DistinctKeys d) (k : Key) (v : α) :
    DistinctKeys (setItem d k v) := by
  induction d with
  | nil => exact List.pairwise_singleton _ _
  | cons e rest ih =>
      obtain ⟨k', v'⟩ := e
      obtain ⟨hne, hrest⟩ := List.pairwise_cons.mp hd
      rw [PyValue.setItem]
      split
      · exact List.pairwise_cons.mpr ⟨hne, hrest⟩
      · rename_i hk
        refine List.pairwise_cons.mpr ⟨fun e he => ?_, ih hrest⟩
        -- the keys of the rest are the old ones, or `k`, and `k'` is neither
        rcases mem_setItem he with he | ⟨-, hk' | ⟨e', he', hk'⟩⟩
        · exact hne e he
        · rw [hk']
          exact Bool.not_eq_true _ ▸ hk
        · rw [← hk']
          exact hne e' he'

end Dict

/-! ## Values -/

inductive Val
  | key (k : Key)
  | list (xs : List Val)
  | dict (items : List (Key × Val))

abbrev Dict := List (Key × Val)

namespace Val

/-- `None` -/
abbrev null : Val := .key .none

abbrev str (s : String) : Val := .key (.str s)

/-- `v == s` for a string `s` -/
def isStr (v : Val) (s : String) : Bool :=
  match v with
  | .key (.str t) => t = s
  | _ => false

/-- `v is None` -/
def isNull : Val → Bool
  | .key .none => true
  | _ => false

theorem eq_null {v : Val} (h : v.isNull = true) : v = null := by
  unfold isNull at h
  split at h
  · rfl
  · cases h

theorem eq_str {v : Val} {s : String} (h : v.isStr s = true) : v = str s := by
  unfold isStr at h
  split at h
  · rw [of_decide_eq_true h]
  · cases h

/-- `bool(v)` -/
def truthy : Val → Bool
  | .key .none => false
  | .key (.bool b) => b
  | .key (.num q) => q ≠ 0
  | .key (.str s) => s ≠ ""
  | .list xs => xs ≠ []
  | .dict d => d ≠ []

variable {ε : Type}

/-- The elements that a `for` loop over `v` goes through. -/
def iter : Val → Except (Exc ε) (List Val)
  | .list xs => .ok xs
  | .dict d => .ok (d.map fun e => .key e.1)
  | .key (.str s) => .ok (s.toList.map fun c => .str (String.singleton c))
  | .key _ => .error .typeError

/-- `hash(v)`; lists and dicts have none. -/
def hash : Val → Except (Exc ε) Key
  | .key k => .ok k
  | _ => .error .typeError

/-- An element of the sequence that `dict(xs)` reads. -/
def pair (v : Val) : Except (Exc ε) (Key × Val) := do
  match ← v.iter with
  | [k, v] => return (← k.hash, v)
  | _ => .error .valueError

/-- `d.update(xs)` for a sequence of pairs -/
def update (d : Dict) : List Val → Except (Exc ε) Dict
  | [] => .ok d
  | x :: rest => do
      let (k, v) ← x.pair
      update (setItem d k v) rest

/-- `dict(v)` -/
def toDict : Val → Except (Exc ε) Dict
  | .dict d => .ok d
  | v => do update [] (← v.iter)

/-- `v.get(k, default)` -/
def getD (v : Val) (k : Key) (default : Val) : Except (Exc ε) Val :=
  match v with
  | .dict d => .ok ((item d k).getD default)
  | _ => .error .attributeError

/-- `s in v` for a string `s` -/
def contains (v : Val) (s : String) : Except (Exc ε) Bool :=
  match v with
  | .dict d => .ok (hasKey d (.str s))
  | .list xs => .ok (xs.any (·.isStr s))
  | .key (.str t) => .ok (s.toList <:+: t.toList)
  | .key _ => .error .typeError

/-- `v[s]` for a string `s` -/
def index (v : Val) (s : String) : Except (Exc ε) Val :=
  match v with
  | .dict d =>
      match item d (.str s) with
      | some x => .ok x
      | none => .error .keyError
  | _ => .error .typeError

end Val

/-- What Python makes of a JSON text: the keys of a dict are strings. -/
inductive IsJson : Val → Prop
  | key (k : Key) : IsJson (.key k)
  | list {xs : List Val} : (∀ x ∈ xs, IsJson x) → IsJson (.list xs)
  | dict {d : Dict} : DistinctKeys d → (∀ e ∈ d, e.1.string?.isSome = true) →
      (∀ e ∈ d, IsJson e.2) → IsJson (.dict d)

/-- A JSON value. -/
structure JsonValue where
  val : Val
  json : IsJson val

theorem IsJson.distinct {d : Dict} (h : IsJson (.dict d)) : DistinctKeys d := by
  cases h
  assumption

theorem IsJson.mem {d : Dict} (h : IsJson (.dict d)) {e : Key × Val} (he : e ∈ d) :
    IsJson e.2 := by
  cases h with
  | dict _ _ hd => exact hd e he

theorem IsJson.item {d : Dict} (h : IsJson (.dict d)) {k : Key} {v : Val}
    (hv : item d k = some v) : IsJson v := by
  obtain ⟨k', -, hm⟩ := mem_of_item hv
  exact h.mem hm

theorem isJson_list_iff {xs : List Val} : IsJson (.list xs) ↔ ∀ x ∈ xs, IsJson x := by
  constructor
  · intro h
    cases h
    assumption
  · exact .list

theorem isJson_dict_iff {d : Dict} : IsJson (.dict d) ↔
    DistinctKeys d ∧ (∀ e ∈ d, e.1.string?.isSome = true) ∧ ∀ e ∈ d, IsJson e.2 := by
  constructor
  · intro h
    cases h with
    | dict hd hkeys hvals => exact ⟨hd, hkeys, hvals⟩
  · rintro ⟨hd, hkeys, hvals⟩
    exact .dict hd hkeys hvals

/-- `v or default`, where `v` may be missing -/
def orElse (v : Option Val) (default : Val) : Val :=
  match v with
  | some v => if v.truthy then v else default
  | none => default

theorem orElse_truthy (v : Option Val) {default : Val} (h : default.truthy = true) :
    (orElse v default).truthy = true := by
  unfold orElse
  split
  · split
    · assumption
    · exact h
  · exact h

theorem IsJson.orElse {d : Dict} (h : IsJson (.dict d)) (k : Key) :
    IsJson (orElse (PyValue.item d k) (.dict [])) := by
  have hempty : IsJson (.dict []) := .dict List.Pairwise.nil nofun nofun
  unfold PyValue.orElse
  split
  · rename_i v hv
    split
    · exact h.item hv
    · exact hempty
  · exact hempty

/-- `d or {}` is `d`, also when `d` is empty. -/
theorem orElse_dict (d : Dict) : orElse (some (.dict d)) (.dict []) = .dict d := by
  cases d with
  | nil => rfl
  | cons e rest => rfl

/-- `d.get(k) or default`, where `d.get(k)` is `None` when `k` is missing. -/
theorem orElse_getD_null (v : Option Val) (default : Val) :
    orElse (some (v.getD .null)) default = orElse v default := by
  cases v with
  | none => rfl
  | some v => rfl

/-- `xs or []` is `xs`. -/
theorem orElse_list (xs : List Val) : orElse (some (.list xs)) (.list []) = .list xs := by
  cases xs with
  | nil => rfl
  | cons x rest => rfl

/-- A value that counts as true has elements, if it can be iterated over. -/
theorem Val.iter_ne_nil {ε : Type} {v : Val} {xs : List Val} (ht : v.truthy = true)
    (h : v.iter (ε := ε) = .ok xs) : xs ≠ [] := by
  cases v with
  | key k =>
      cases k with
      | str s =>
          obtain rfl := Except.ok.inj h
          -- the characters of a string that is not empty
          have hs : s ≠ "" := by simpa [Val.truthy] using ht
          simpa using hs
      | _ => cases h
  | list ys =>
      obtain rfl := Except.ok.inj h
      simpa [Val.truthy] using ht
  | dict d =>
      obtain rfl := Except.ok.inj h
      simpa [Val.truthy] using ht

/-! ## Sorting a set -/

/-- `set.add`; a set is the list of its elements in the order in which they were added. -/
def addKey (elems : List Key) (k : Key) : List Key :=
  if elems.any (·.same k) then elems else elems ++ [k]

def distinct (ks : List Key) : List Key := ks.foldl addKey []

/-- `sorted(ks)` of a set. Only numbers, and only strings, are ordered. -/
def sortedKeys {ε : Type} (ks : List Key) : Except (Exc ε) (List Key) :=
  if ks.length ≤ 1 ∨ (ks.all (·.string?.isSome)) ∨ (ks.all (·.number?.isSome)) then
    .ok (ks.insertionSort fun a b => a.le b)
  else .error .typeError

/-- `sorted({v for v in vs})` -/
def sortedSet {ε : Type} (vs : List Val) : Except (Exc ε) (List Key) := do
  sortedKeys (distinct (← vs.mapM Val.hash))

theorem mem_distinct_append {acc ks : List Key} {s : String} :
    Key.str s ∈ ks.foldl addKey acc ↔
      Key.str s ∈ acc ∨ Key.str s ∈ ks := by
  induction ks generalizing acc with
  | nil => simp
  | cons k rest ih =>
      rw [List.foldl_cons, ih, addKey]
      split
      · rename_i h
        constructor
        · rintro (h' | h')
          · exact Or.inl h'
          · exact Or.inr (List.mem_cons_of_mem _ h')
        · rintro (h' | h')
          · exact Or.inl h'
          · rcases List.mem_cons.mp h' with rfl | h'
            · -- a key that is the same as a string is that string
              obtain ⟨k', hk', hsame⟩ := List.any_eq_true.mp h
              cases k' with
              | str s' =>
                  obtain rfl : s' = s := by simpa using hsame
                  exact Or.inl hk'
              | _ => simp [Key.same, Key.number?] at hsame
            · exact Or.inr h'
      · simp [or_assoc, eq_comm]

/-- A string is in a set if it has been added. -/
theorem mem_distinct {ks : List Key} {s : String} : Key.str s ∈ distinct ks ↔ Key.str s ∈ ks := by
  rw [distinct, mem_distinct_append]
  simp

theorem distinct_subset {acc ks : List Key} :
    ∀ k ∈ ks.foldl addKey acc, k ∈ acc ∨ k ∈ ks := by
  induction ks generalizing acc with
  | nil => exact fun k hk => Or.inl hk
  | cons k₀ rest ih =>
      intro k hk
      rcases ih k hk with h | h
      · rw [addKey] at h
        split at h
        · exact Or.inl h
        · rcases List.mem_append.mp h with h | h
          · exact Or.inl h
          · exact Or.inr (List.mem_cons.mpr (Or.inl (List.mem_singleton.mp h)))
      · exact Or.inr (List.mem_cons_of_mem _ h)

/-- A set of strings can be sorted. -/
theorem sortedSet_strings {ε : Type} (ss : List String) :
    ∃ ks, sortedSet (ε := ε) (ss.map Val.str) = .ok ks ∧ ∀ s, Key.str s ∈ ks ↔ s ∈ ss := by
  -- strings can be hashed
  have hmap : (ss.map Val.str).mapM (Val.hash (ε := ε)) = .ok (ss.map Key.str) := by
    induction ss with
    | nil => rfl
    | cons s rest ih =>
        rw [List.map_cons, List.mapM_cons, ih]
        rfl
  -- and a set of them has only strings
  have hall : (distinct (ss.map Key.str)).all (·.string?.isSome) = true := by
    refine List.all_eq_true.mpr fun k hk => ?_
    rcases distinct_subset k hk with hk | hk
    · cases hk
    · obtain ⟨s, -, rfl⟩ := List.mem_map.mp hk
      rfl
  refine ⟨(distinct (ss.map Key.str)).insertionSort fun a b => a.le b, ?_, fun s => ?_⟩
  · rw [sortedSet, hmap, ok_bind, sortedKeys, if_pos (Or.inr (Or.inl hall))]
  · rw [(List.perm_insertionSort _ _).mem_iff, mem_distinct]
    simp

/-! ## Exceptions of the built-ins -/

section Builtin

variable {α β ε : Type}

/-- The program's own exceptions are not raised. -/
def Builtin (x : Except (Exc ε) α) : Prop := ∀ e, x ≠ .error (.raised e)

theorem Builtin.ok (a : α) : Builtin (.ok a : Except (Exc ε) α) := fun _ => nofun

theorem Builtin.bind {x : Except (Exc ε) α} {f : α → Except (Exc ε) β} (hx : Builtin x)
    (hf : ∀ a, Builtin (f a)) : Builtin (x >>= f) := by
  intro e h
  rcases bind_error_iff.mp h with h | ⟨a, -, h⟩
  · exact hx e h
  · exact hf a e h

/-- In a sequence that begins with a built-in, only the rest raises the program's exceptions. -/
theorem Builtin.bind_raised_iff {x : Except (Exc ε) α} {f : α → Except (Exc ε) β} {e : ε}
    (hx : Builtin x) :
    x >>= f = .error (.raised e) ↔ ∃ a, x = .ok a ∧ f a = .error (.raised e) := by
  rw [bind_error_iff]
  exact ⟨fun h => h.resolve_left (hx e), Or.inr⟩

theorem Val.iter_builtin (v : Val) : Builtin (v.iter (ε := ε)) := by
  intro e h
  cases v with
  | key k => cases k <;> cases h
  | list xs => cases h
  | dict d => cases h

theorem Val.hash_builtin (v : Val) : Builtin (v.hash (ε := ε)) := by
  intro e h
  cases v <;> cases h

theorem Val.pair_builtin (v : Val) : Builtin (v.pair (ε := ε)) := by
  refine v.iter_builtin.bind fun xs => ?_
  split
  · exact (Val.hash_builtin _).bind fun _ => .ok _
  · exact fun _ => nofun

theorem Val.update_builtin (xs : List Val) (d : Dict) : Builtin (Val.update (ε := ε) d xs) := by
  induction xs generalizing d with
  | nil => exact .ok d
  | cons x rest ih => exact x.pair_builtin.bind fun p => ih _

theorem Val.toDict_builtin (v : Val) : Builtin (v.toDict (ε := ε)) := by
  unfold Val.toDict
  split
  · exact .ok _
  · exact (Val.iter_builtin _).bind fun xs => Val.update_builtin xs []

theorem Val.getD_builtin (v : Val) (k : Key) (default : Val) :
    Builtin (v.getD (ε := ε) k default) := by
  unfold Val.getD
  split
  · exact .ok _
  · exact fun _ => nofun

theorem Val.contains_builtin (v : Val) (s : String) : Builtin (v.contains (ε := ε) s) := by
  unfold Val.contains
  split <;> exact fun _ => nofun

theorem Val.index_builtin (v : Val) (s : String) : Builtin (v.index (ε := ε) s) := by
  unfold Val.index
  split
  · split <;> exact fun _ => nofun
  · exact fun _ => nofun

theorem sortedSet_builtin (vs : List Val) : Builtin (sortedSet (ε := ε) vs) := by
  have hmap : Builtin (vs.mapM (Val.hash (ε := ε))) := by
    induction vs with
    | nil => exact .ok []
    | cons v rest ih =>
        rw [List.mapM_cons]
        exact v.hash_builtin.bind fun k => ih.bind fun ks => .ok (k :: ks)
  refine hmap.bind fun ks => ?_
  unfold sortedKeys
  split <;> exact fun _ => nofun

end Builtin

/-! ## Sizes -/

theorem sizeOf_item_lt {d : Dict} {k : Key} {v : Val} (h : item d k = some v) :
    sizeOf v < sizeOf (Val.dict d) := by
  obtain ⟨k', -, hm⟩ := mem_of_item h
  have := List.sizeOf_lt_of_mem hm
  simp only [Prod.mk.sizeOf_spec] at this
  simp only [Val.dict.sizeOf_spec]
  omega

/-- `d.get(k) or {}` is not larger than `d`. -/
theorem sizeOf_orElse_le (d : Dict) (k : Key) :
    sizeOf (orElse (item d k) (.dict [])) ≤ sizeOf (Val.dict d) := by
  have hempty : sizeOf (Val.dict []) ≤ sizeOf (Val.dict d) := by
    cases d with
    | nil => exact le_rfl
    | cons e rest =>
        simp
        omega
  unfold orElse
  split
  · rename_i v hv
    split
    · exact (sizeOf_item_lt hv).le
    · exact hempty
  · exact hempty

end PyValue
