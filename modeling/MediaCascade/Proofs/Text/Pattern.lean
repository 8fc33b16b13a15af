import MediaCascade.Text.Basic

/-!
# Patterns, and all ways to match them

A pattern says what a text may begin with, and which parts of that are picked out. `Pattern.ways`
lists all ways to match it at the start of a text, in the order in which a search tries them that goes
back to its last choice whenever it is stuck. The search answers the first way of the list; it has
no choice if the list has one way.

* `Pattern.ways_seq_repeated`: characters of one kind, repeated in front of a pattern that begins
  with no such character, are all taken. A way that stops earlier never comes to an end.
* `Pattern.flatMap_ways_repeated_of_one`: the same for the repetition of any pattern, one part at a
  time.

Whether a repetition prefers many parts or few (`Preference`) decides the order of the ways only.
-/

namespace MediaCascade

/-! ## 1. Ways to match -/

/-- What a repetition tries first: one part more, or to stop. -/
inductive Preference where
  | more
  | fewer
  deriving DecidableEq, Repr

/-- One way to match a pattern: what it takes of the text, the parts of it that are picked out, and
    the text behind. -/
structure Way where
  taken : Text
  picked : List Text
  behind : Text
  deriving DecidableEq, Repr

/-- The way that takes nothing. -/
def Way.stay (s : Text) : Way := ⟨[], [], s⟩

/-- One way, and another one from where it ends. -/
def Way.followedBy (way later : Way) : Way :=
  ⟨way.taken ++ later.taken, way.picked ++ later.picked, later.behind⟩

/-- The way, with all that it takes picked out as well. -/
def Way.pickAll (way : Way) : Way := { way with picked := way.taken :: way.picked }

/-- The ways of a repetition in their order: those with one part more, and the one that stops. -/
def Preference.order (preference : Preference) (longer : List Way) (stop : Way) : List Way :=
  match preference with
  | .more => longer ++ [stop]
  | .fewer => stop :: longer

/-- What a text may begin with. -/
inductive Pattern where
  /-- These characters. -/
  | word (characters : Text)
  /-- One character of a kind. -/
  | oneOf (kind : Char → Bool)
  /-- One pattern, and then another one. -/
  | seq (first second : Pattern)
  /-- A pattern, any number of times. -/
  | repeated (preference : Preference) (part : Pattern)
  /-- A pattern whose text is picked out. -/
  | pick (part : Pattern)

/-- The ways to repeat a pattern with these ways. A part that takes nothing is not repeated. -/
def repeatedWays (preference : Preference) (part : Text → List Way) (s : Text) : List Way :=
  preference.order
    ((part s).flatMap fun way =>
      if _h : way.behind.length < s.length then
        (repeatedWays preference part way.behind).map way.followedBy
      else [])
    (.stay s)
termination_by s.length

namespace Pattern

/-- All ways to match a pattern at the start of a text. -/
def ways : Pattern → Text → List Way
  | .word characters, s =>
    if characters.isPrefixOf s then [⟨characters, [], s.drop characters.length⟩] else []
  | .oneOf _, [] => []
  | .oneOf kind, c :: rest => if kind c then [⟨[c], [], rest⟩] else []
  | .seq first second, s =>
    (first.ways s).flatMap fun way => (second.ways way.behind).map way.followedBy
  | .repeated preference part, s => repeatedWays preference part.ways s
  | .pick part, s => (part.ways s).map Way.pickAll

end Pattern

/-! ## 2. Ways that come to nothing -/

namespace Way

@[simp] theorem stay_followedBy (s : Text) (later : Way) : (stay s).followedBy later = later := rfl

theorem followedBy_assoc (first second third : Way) :
    (first.followedBy second).followedBy third = first.followedBy (second.followedBy third) := by
  simp [followedBy]

end Way

namespace Preference

variable {β : Type}

@[simp] theorem order_nil (preference : Preference) (stop : Way) :
    preference.order [] stop = [stop] := by
  cases preference <;> rfl

/-- **Where stopping leads to nothing, it does not matter when it is tried.** -/
theorem flatMap_order {preference : Preference} {stop : Way} {next : Way → List β}
    (h : next stop = []) (longer : List Way) :
    (preference.order longer stop).flatMap next = longer.flatMap next := by
  cases preference <;> simp [order, h]

end Preference

namespace Pattern

variable {β : Type} {preference : Preference} {part : Pattern}

theorem ways_seq (first second : Pattern) (s : Text) :
    (seq first second).ways s =
      (first.ways s).flatMap fun way => (second.ways way.behind).map way.followedBy := rfl

/-- What comes behind one pattern and another comes behind the one, and then behind the other. -/
theorem flatMap_ways_seq (first second : Pattern) (s : Text) (next : Way → List β) :
    ((seq first second).ways s).flatMap next =
      (first.ways s).flatMap fun way =>
        (second.ways way.behind).flatMap fun later => next (way.followedBy later) := by
  rw [ways_seq, List.flatMap_assoc]
  simp only [List.flatMap_map]

theorem flatMap_ways_pick (part : Pattern) (s : Text) (next : Way → List β) :
    ((pick part).ways s).flatMap next = (part.ways s).flatMap fun way => next way.pickAll :=
  List.flatMap_map _ _ _

/-- Where the part has no way, the repetition stops at once. -/
theorem ways_repeated_of_nil {s : Text} (h : part.ways s = []) :
    (repeated preference part).ways s = [.stay s] := by
  rw [ways, repeatedWays, h, List.flatMap_nil, Preference.order_nil]

/-- **Where the part has one way, and what comes next cannot start before it, the repetition takes the
    part.** -/
theorem flatMap_ways_repeated_of_one {s : Text} {way : Way} {next : Way → List β}
    (h : part.ways s = [way]) (hlt : way.behind.length < s.length) (hnext : next (.stay s) = []) :
    ((repeated preference part).ways s).flatMap next =
      ((repeated preference part).ways way.behind).flatMap fun later =>
        next (way.followedBy later) := by
  rw [ways, repeatedWays, Preference.flatMap_order hnext, h, List.flatMap_singleton, dif_pos hlt,
    List.flatMap_map]
  rfl

/-- Of characters of one kind, a repetition takes all that there are, if what comes next begins with
    none of them. -/
theorem flatMap_ways_repeated_oneOf (kind : Char → Bool) (next : Way → List β)
    (hnext : ∀ way c rest, way.behind = c :: rest → kind c = true → next way = []) (s : Text) :
    ((repeated preference (oneOf kind)).ways s).flatMap next =
      next ⟨s.takeWhile kind, [], s.dropWhile kind⟩ := by
  induction s generalizing next with
  | nil =>
    rw [ways_repeated_of_nil rfl, List.flatMap_singleton]
    rfl
  | cons c rest ih =>
    by_cases hc : kind c = true
    · have hone : (oneOf kind).ways (c :: rest) = [⟨[c], [], rest⟩] := if_pos hc
      have hstop : next (.stay (c :: rest)) = [] := hnext _ c rest rfl hc
      have hlater := ih (fun later => next (Way.followedBy ⟨[c], [], rest⟩ later))
        fun way d r hway hd => hnext _ d r hway hd
      rw [flatMap_ways_repeated_of_one hone (Nat.lt_succ_self _) hstop, hlater,
        List.takeWhile_cons_of_pos hc, List.dropWhile_cons_of_pos hc]
      rfl
    · have hnone : (oneOf kind).ways (c :: rest) = [] := if_neg hc
      rw [ways_repeated_of_nil hnone, List.flatMap_singleton, List.takeWhile_cons_of_neg hc,
        List.dropWhile_cons_of_neg hc]
      rfl

/-- **Characters of one kind before a pattern that begins with none of them** are all taken. -/
theorem ways_seq_repeated {kind : Char → Bool} {behind : Pattern}
    (hbehind : ∀ c rest, kind c = true → behind.ways (c :: rest) = []) (s : Text) :
    (seq (repeated preference (oneOf kind)) behind).ways s =
      (behind.ways (s.dropWhile kind)).map
        (Way.followedBy ⟨s.takeWhile kind, [], s.dropWhile kind⟩) := by
  rw [ways]
  refine flatMap_ways_repeated_oneOf kind _ (fun way c rest hway hc => ?_) s
  rw [hway, hbehind c rest hc, List.map_nil]

theorem ways_word_append (w s : Text) : (word w).ways (w ++ s) = [⟨w, [], s⟩] := by
  have hp : w.isPrefixOf (w ++ s) = true := List.isPrefixOf_iff_prefix.mpr (List.prefix_append w s)
  rw [ways, if_pos hp, List.drop_left]

theorem ways_word_of_not_prefix {w s : Text} (h : ¬ w <+: s) : (word w).ways s = [] := by
  rw [ways, if_neg (mt List.isPrefixOf_iff_prefix.mp h)]

theorem ways_word_cons (c d : Char) (rest : Text) :
    (word [c]).ways (d :: rest) = if c = d then [⟨[c], [], rest⟩] else [] := by
  by_cases h : c = d <;> simp [ways, h]

/-! ## 3. Searches -/

/-- The first way at each place of a text that has one, from left to right, where the first `skip`
    characters are passed over. A search goes on behind the text that a way takes. -/
def searchFrom (p : Pattern) : (skip : Nat) → Text → List Way
  | _, [] => []
  | skip + 1, _ :: rest => p.searchFrom skip rest
  | 0, c :: rest =>
    match p.ways (c :: rest) with
    | [] => p.searchFrom 0 rest
    | way :: _ => way :: p.searchFrom (way.taken.length - 1) rest

/-- All that is found of a pattern in a text. The pattern is not tried at the end of the text, where
    it could only take nothing. -/
def search (p : Pattern) (s : Text) : List Way := p.searchFrom 0 s

variable {p : Pattern} {s : Text}

theorem searchFrom_eq (p : Pattern) (skip : Nat) (s : Text) :
    p.searchFrom skip s = p.search (s.drop skip) := by
  induction s generalizing skip with
  | nil => cases skip <;> rfl
  | cons c rest ih =>
    cases skip with
    | zero => rfl
    | succ skip => rw [searchFrom, ih, List.drop_succ_cons]

theorem search_cons_of_nil {c : Char} {rest : Text} (h : p.ways (c :: rest) = []) :
    p.search (c :: rest) = p.search rest := by
  rw [search, searchFrom, h]
  rfl

theorem search_cons_of_cons {c : Char} {rest : Text} {way : Way} {others : List Way}
    (h : p.ways (c :: rest) = way :: others) :
    p.search (c :: rest) = way :: p.search (rest.drop (way.taken.length - 1)) := by
  rw [search, searchFrom, h]
  simp only [searchFrom_eq]

/-- **A place that has a way**: it is found, and the search goes on behind what it takes. -/
theorem search_append_of_cons {t : Text} (ht : t ≠ []) {way : Way} {others : List Way}
    (h : p.ways (t ++ s) = way :: others) (htaken : way.taken = t) :
    p.search (t ++ s) = way :: p.search s := by
  cases t with
  | nil => exact absurd rfl ht
  | cons c rest =>
    rw [List.cons_append] at h ⊢
    rw [search_cons_of_cons h, htaken, List.length_cons, Nat.add_sub_cancel, List.drop_left]

/-- **Places that have no way** are passed over. -/
theorem search_append_of_nil {t : Text}
    (h : ∀ c rest, c :: rest <:+ t → p.ways (c :: rest ++ s) = []) :
    p.search (t ++ s) = p.search s := by
  induction t with
  | nil => rfl
  | cons c rest ih =>
    have hhead : p.ways (c :: (rest ++ s)) = [] := h c rest (List.suffix_refl _)
    rw [List.cons_append, search_cons_of_nil hhead]
    exact ih fun d tail htail => h d tail (htail.trans (List.suffix_cons c rest))

end Pattern

end MediaCascade
