import Watershed.River

/-!
# The registry of rivers

All rivers mentioned so far, in the order of their first mention. A river comes into being in its
default state when it is first mentioned, and it is never removed.
-/

set_option autoImplicit false

namespace Watershed

/-- Rivers by name, each name once, in the order in which they were first mentioned. -/
structure Registry where
  entries : List (String × River)
  nodup : (entries.map Prod.fst).Nodup

namespace Registry

/-- The registry without rivers. -/
def empty : Registry :=
  ⟨[], List.nodup_nil⟩

/-- The names of the rivers, in order. -/
def names (g : Registry) : List String :=
  g.entries.map Prod.fst

/-- The state of a river, if it has been mentioned. -/
def get? (g : Registry) (name : String) : Option River :=
  (g.entries.find? (·.1 = name)).map Prod.snd

/-- Whether a river has been mentioned. -/
def contains (g : Registry) (name : String) : Bool :=
  g.entries.any (·.1 = name)

/-- The state of a river; one never mentioned is in the default state. -/
def state (g : Registry) (name : String) : River :=
  (g.get? name).getD {}

/-- Replaces the state of a river in its place, or adds the river at the end. -/
def putEntry (name : String) (r : River) : List (String × River) → List (String × River)
  | [] => [(name, r)]
  | e :: es => if e.1 = name then (name, r) :: es else e :: putEntry name r es

/-- Putting a river keeps the order of the names, and adds a new name at the end. -/
theorem map_fst_putEntry (name : String) (r : River) (es : List (String × River)) :
    (putEntry name r es).map Prod.fst =
      if name ∈ es.map Prod.fst then es.map Prod.fst else es.map Prod.fst ++ [name] := by
  induction es with
  | nil => rfl
  | cons e es ih =>
    rw [putEntry]
    by_cases h : e.1 = name
    · simp [h]
    · simp only [h, if_false, List.map_cons, ih, List.mem_cons, Ne.symm h, false_or]
      split <;> rfl

/-- Putting a river keeps the names apart from each other. -/
theorem nodup_putEntry (name : String) (r : River) {es : List (String × River)}
    (h : (es.map Prod.fst).Nodup) : ((putEntry name r es).map Prod.fst).Nodup := by
  rw [map_fst_putEntry]
  split
  · exact h
  · rename_i hnot
    refine List.nodup_append.2 ⟨h, by simp, ?_⟩
    intro a ha b hb hab
    obtain rfl := List.mem_singleton.1 hb
    exact hnot (hab ▸ ha)

/-- A river that was put is found in its new state, and every other one as before. -/
theorem find?_putEntry (name n : String) (r : River) (es : List (String × River)) :
    ((putEntry name r es).find? (·.1 = n)).map Prod.snd =
      if n = name then some r else (es.find? (·.1 = n)).map Prod.snd := by
  induction es with
  | nil =>
    by_cases h : n = name
    · simp [putEntry, h]
    · have hne : ¬ name = n := fun heq => h heq.symm
      simp [putEntry, h, hne]
  | cons e es ih =>
    rw [putEntry]
    by_cases he : e.1 = name
    · by_cases h : n = name
      · simp [he, h]
      · have hne : ¬ name = n := fun heq => h heq.symm
        simp [he, h, hne]
    · by_cases h : e.1 = n
      · have hne : ¬ n = name := fun heq => he (h.trans heq)
        simp [h, hne]
      · simpa [he, h] using ih

/-- Puts a river into a state: in its place if it has been mentioned, at the end otherwise. -/
def put (g : Registry) (name : String) (r : River) : Registry :=
  ⟨putEntry name r g.entries, nodup_putEntry name r g.nodup⟩

/-- Changes the state of a river, which is thereby mentioned. -/
def update (g : Registry) (name : String) (f : River → River) : Registry :=
  g.put name (f (g.state name))

/-- Mentions a river. -/
def mention (g : Registry) (name : String) : Registry :=
  g.update name id

/-- Mentions several rivers, one after the other. -/
def mentionAll (g : Registry) (names : List String) : Registry :=
  names.foldl mention g

/-- The sum of what leaves several rivers, added up from the left. It starts from `-0.0`, the
number that leaves every other number as it is when added to it. -/
def totalOutflow (g : Registry) (names : List String) : Float :=
  names.foldl (fun total name => total + (g.state name).outflow) (-0.0)

/-- Begins a new day for every river. -/
def startDay (g : Registry) : Registry :=
  { entries := g.entries.map fun e => (e.1, e.2.startDay)
    nodup := by
      rw [List.map_map]
      exact g.nodup }

/-! ## What the operations do to names and states -/

/-- Putting a river adds its name at the end, unless it is there already. -/
theorem names_put (g : Registry) (name : String) (r : River) :
    (g.put name r).names = if name ∈ g.names then g.names else g.names ++ [name] :=
  map_fst_putEntry name r g.entries

/-- A river that was put is in its new state, and every other one is as before. -/
theorem get?_put (g : Registry) (name n : String) (r : River) :
    (g.put name r).get? n = if n = name then some r else g.get? n :=
  find?_putEntry name n r g.entries

/-- Putting a river changes the state of no other. -/
theorem state_put (g : Registry) (name n : String) (r : River) :
    (g.put name r).state n = if n = name then r else g.state n := by
  rw [state, get?_put]
  split <;> rfl

/-- A river that has been mentioned is found. -/
theorem get?_of_mem_names {g : Registry} {name : String} (h : name ∈ g.names) :
    g.get? name = some (g.state name) := by
  obtain ⟨e, he, rfl⟩ := List.mem_map.1 h
  cases hfind : g.entries.find? (·.1 = e.1) with
  | none => simpa using List.find?_eq_none.1 hfind e he
  | some found => simp [state, get?, hfind]

/-- A river that has not been mentioned is not found. -/
theorem get?_of_not_mem_names {g : Registry} {name : String} (h : name ∉ g.names) :
    g.get? name = none := by
  rw [get?, Option.map_eq_none_iff, List.find?_eq_none]
  intro e he hname
  exact h (List.mem_map.2 ⟨e, he, by simpa using hname⟩)

/-- Mentioning a river changes the state of none. -/
theorem state_mention (g : Registry) (name n : String) : (g.mention name).state n = g.state n := by
  rw [mention, update, state_put]
  split
  · rename_i h
    rw [h]
    rfl
  · rfl

/-- Mentioning rivers changes the state of none. -/
theorem state_mentionAll (g : Registry) (names : List String) (n : String) :
    (g.mentionAll names).state n = g.state n := by
  induction names generalizing g with
  | nil => rfl
  | cons name names ih =>
    have hrest := ih (g.mention name)
    rw [state_mention] at hrest
    exact hrest

/-- The sum of what leaves some rivers depends on what leaves each of them, and on nothing else. -/
theorem totalOutflow_congr {g g' : Registry} {names : List String}
    (h : ∀ x ∈ names, (g.state x).outflow = (g'.state x).outflow) :
    g.totalOutflow names = g'.totalOutflow names := by
  refine List.foldl_rel (r := Eq) rfl fun x hx total total' htotal => ?_
  rw [htotal, h x hx]

/-- A new day forgets no river. -/
theorem names_startDay (g : Registry) : g.startDay.names = g.names := by
  simp [names, startDay]

/-- A river on a new day is the river of the day before, started afresh. -/
theorem get?_startDay (g : Registry) (name : String) :
    g.startDay.get? name = (g.get? name).map River.startDay := by
  simp only [get?, startDay, List.find?_map, Option.map_map]
  rfl

/-- Every river starts afresh on a new day, mentioned or not. -/
theorem state_startDay (g : Registry) (name : String) :
    g.startDay.state name = (g.state name).startDay := by
  rw [state, state, get?_startDay]
  cases g.get? name <;> rfl

end Registry

end Watershed
