import MediaCascade.Source.MediaBlock
import MediaCascade.Source.Rule

/-!
# Flat bodies as data

A flat body `p₁{d₁}p₂{d₂}…pₙ{dₙ}t` is a list of groups and a tail, all of them brace-free. The
type `FlatBody` holds exactly these, so that whatever is said of the shape of a body is said of its
groups and its tail.

* `FlatBody.text_injective`: a text has at most one such shape.
* `flatBody?_eq_some_iff`: the scanner reads a body if and only if it has this shape and its brace
  behind it. Nothing else is accepted, and what follows does not matter.
* `innerRules_text`: of a flat body, exactly the groups with something before their brace are cut
  out as rules.
-/

namespace MediaCascade

/-! ## 1. Brace-free texts -/

/-- A text without braces. -/
def BraceFree (s : Text) : Prop := ∀ c ∈ s, isBraceFree c = true

instance (s : Text) : Decidable (BraceFree s) :=
  List.decidableBAll (fun c => isBraceFree c = true) s

/-- Where all characters are dropped, nothing is left. -/
theorem dropWhile_eq_nil_of_forall {p : Char → Bool} {s : Text} (h : ∀ c ∈ s, p c = true) :
    s.dropWhile p = [] := by
  have hdrop : (s ++ []).dropWhile p = List.dropWhile p [] := List.dropWhile_append_of_pos h
  rwa [List.append_nil] at hdrop

theorem isBraceFree_iff (c : Char) : isBraceFree c = true ↔ c ≠ '{' ∧ c ≠ '}' := by
  simp [isBraceFree]

theorem isBraceFree_opening : isBraceFree '{' = false := by decide

theorem isBraceFree_closing : isBraceFree '}' = false := by decide

namespace BraceFree

variable {s t : Text}

theorem nil : BraceFree [] := fun _ h => absurd h List.not_mem_nil

theorem append (hs : BraceFree s) (ht : BraceFree t) : BraceFree (s ++ t) := by
  intro c hc
  rcases List.mem_append.mp hc with h | h
  · exact hs c h
  · exact ht c h

theorem cons {c : Char} (hc : isBraceFree c = true) (hs : BraceFree s) : BraceFree (c :: s) := by
  intro d hd
  rcases List.mem_cons.mp hd with rfl | h
  · exact hc
  · exact hs d h

theorem head {c : Char} (h : BraceFree (c :: s)) : isBraceFree c = true := h c List.mem_cons_self

theorem tail {c : Char} (h : BraceFree (c :: s)) : BraceFree s :=
  fun d hd => h d (List.mem_cons_of_mem _ hd)

theorem of_infix (ht : BraceFree t) (h : s <:+: t) : BraceFree s :=
  fun c hc => ht c (h.subset hc)

theorem opening_not_mem (hs : BraceFree s) : '{' ∉ s := fun h => absurd (hs _ h) (by decide)

theorem closing_not_mem (hs : BraceFree s) : '}' ∉ s := fun h => absurd (hs _ h) (by decide)

theorem of_not_mem (ho : '{' ∉ s) (hc : '}' ∉ s) : BraceFree s := by
  intro c h
  rw [isBraceFree_iff]
  exact ⟨fun e => ho (e ▸ h), fun e => hc (e ▸ h)⟩

/-- Taking brace-free characters stops at the first brace. -/
theorem takeWhile_append (hs : BraceFree s) {brace : Char} (hb : isBraceFree brace = false)
    (r : Text) : (s ++ brace :: r).takeWhile isBraceFree = s := by
  rw [List.takeWhile_append_of_pos hs, List.takeWhile_cons_of_neg (by simp [hb]), List.append_nil]

theorem dropWhile_append (hs : BraceFree s) {brace : Char} (hb : isBraceFree brace = false)
    (r : Text) : (s ++ brace :: r).dropWhile isBraceFree = brace :: r := by
  rw [List.dropWhile_append_of_pos hs, List.dropWhile_cons_of_neg (by simp [hb])]

theorem dropWhile_eq_nil (hs : BraceFree s) : s.dropWhile isBraceFree = [] :=
  dropWhile_eq_nil_of_forall hs

/-- Two texts with their first braces agree in what stands before these and behind. -/
theorem append_cons_inj (hs : BraceFree s) (ht : BraceFree t) {a b : Char}
    (ha : isBraceFree a = false) (hb : isBraceFree b = false) {x y : Text}
    (h : s ++ a :: x = t ++ b :: y) : s = t ∧ x = y := by
  have htake := congrArg (List.takeWhile isBraceFree) h
  rw [hs.takeWhile_append ha, ht.takeWhile_append hb] at htake
  have hdrop := congrArg (List.dropWhile isBraceFree) h
  rw [hs.dropWhile_append ha, ht.dropWhile_append hb] at hdrop
  exact ⟨htake, (List.cons.inj hdrop).2⟩

end BraceFree

/-- A text has no brace, or a first one. -/
theorem braceFree_or_exists_first (s : Text) :
    BraceFree s ∨ (∃ t r, BraceFree t ∧ s = t ++ '{' :: r) ∨
      ∃ t r, BraceFree t ∧ s = t ++ '}' :: r := by
  induction s with
  | nil => exact .inl .nil
  | cons c rest ih =>
    by_cases hc : isBraceFree c = true
    · rcases ih with h | ⟨t, r, ht, rfl⟩ | ⟨t, r, ht, rfl⟩
      · exact .inl (h.cons hc)
      · exact .inr (.inl ⟨c :: t, r, ht.cons hc, rfl⟩)
      · exact .inr (.inr ⟨c :: t, r, ht.cons hc, rfl⟩)
    · by_cases ho : c = '{'
      · exact .inr (.inl ⟨[], rest, .nil, by rw [ho]; rfl⟩)
      · have hclose : c = '}' :=
          Decidable.byContradiction fun h => hc ((isBraceFree_iff c).mpr ⟨ho, h⟩)
        exact .inr (.inr ⟨[], rest, .nil, by rw [hclose]; rfl⟩)

/-! ## 2. The shape of a body -/

/-- A group of a flat body: the text within its braces, and the text before them. -/
structure Group where
  before : Text
  inside : Text
  before_free : BraceFree before
  inside_free : BraceFree inside
  deriving DecidableEq

/-- A flat body: its groups, and the text behind the last. -/
structure FlatBody where
  groups : List Group
  tail : Text
  tail_free : BraceFree tail
  deriving DecidableEq

/-- A group as it stands in the source. -/
def Group.text (g : Group) : Text := g.before ++ '{' :: g.inside ++ ['}']

theorem Group.text_append (g : Group) (s : Text) :
    g.text ++ s = g.before ++ '{' :: (g.inside ++ '}' :: s) := by
  simp [Group.text]

namespace FlatBody

/-- A flat body as it stands in the source. -/
def text (f : FlatBody) : Text := f.groups.flatMap Group.text ++ f.tail

/-- The body with one more group in front. -/
def cons (g : Group) (f : FlatBody) : FlatBody := { f with groups := g :: f.groups }

/-- The body of a brace-free text. -/
def ofTail (t : Text) (h : BraceFree t) : FlatBody := ⟨[], t, h⟩

@[simp] theorem text_ofTail (t : Text) (h : BraceFree t) : (ofTail t h).text = t := rfl

@[simp] theorem text_cons (g : Group) (f : FlatBody) : (cons g f).text = g.text ++ f.text := by
  simp [text, cons]

/-- A group stands in the body. -/
theorem text_infix_of_mem {f : FlatBody} {g : Group} (h : g ∈ f.groups) : g.text <:+: f.text := by
  obtain ⟨front, back, hsplit⟩ := List.append_of_mem h
  refine ⟨front.flatMap Group.text, back.flatMap Group.text ++ f.tail, ?_⟩
  rw [text, hsplit, List.flatMap_append, List.flatMap_cons]
  simp

/-- Bodies are built from a brace-free text by putting groups in front of it. -/
theorem induction_on {P : FlatBody → Prop} (f : FlatBody) (nil : ∀ t h, P (ofTail t h))
    (cons : ∀ g f, P f → P (cons g f)) : P f := by
  obtain ⟨groups, tail, free⟩ := f
  induction groups with
  | nil => exact nil tail free
  | cons g rest ih => exact cons g ⟨rest, tail, free⟩ ih

theorem text_ofTail_ne_cons {t : Text} (h : BraceFree t) (g : Group) (f : FlatBody) :
    (ofTail t h).text ≠ (cons g f).text := by
  intro e
  rw [text_ofTail, text_cons, Group.text] at e
  exact h.opening_not_mem (e ▸ by simp)

/-- **A text is a flat body in at most one way.** -/
theorem text_injective {f f' : FlatBody} (h : f.text = f'.text) : f = f' := by
  induction f using induction_on generalizing f' with
  | nil t ht =>
    cases f' using induction_on with
    | nil t' ht' =>
      simp only [text_ofTail] at h
      subst h
      rfl
    | cons g' f' => exact absurd h (text_ofTail_ne_cons ht g' f')
  | cons g f ih =>
    cases f' using induction_on with
    | nil t' ht' => exact absurd h.symm (text_ofTail_ne_cons ht' g f)
    | cons g' f' =>
      rw [text_cons, text_cons, Group.text_append, Group.text_append] at h
      obtain ⟨hbefore, h⟩ := g.before_free.append_cons_inj g'.before_free (by decide) (by decide) h
      obtain ⟨hinside, h⟩ := g.inside_free.append_cons_inj g'.inside_free (by decide) (by decide) h
      have hg : g = g' := by
        cases g
        cases g'
        simp only at hbefore hinside
        subst hbefore hinside
        rfl
      rw [hg, ih h]

end FlatBody

/-! ## 3. The scanner -/

/-- Brace-free characters are read without a change of state. -/
theorem flatBody?_braceFree_append {t : Text} (ht : BraceFree t) (inGroup : Bool) (s : Text) :
    flatBody? inGroup (t ++ s) =
      (flatBody? inGroup s).map fun read => (t ++ read.1, read.2) := by
  induction t with
  | nil => simp
  | cons c rest ih =>
    obtain ⟨ho, hc⟩ := (isBraceFree_iff c).mp ht.head
    rw [List.cons_append, flatBody?, if_neg ho, if_neg hc, ih ht.tail, Option.map_map]
    rfl

/-- Where a body is open, an opening brace opens a group. -/
theorem flatBody?_opening {t : Text} (ht : BraceFree t) (r : Text) :
    flatBody? false (t ++ '{' :: r) =
      (flatBody? true r).map fun read => (t ++ '{' :: read.1, read.2) := by
  have hopen : flatBody? false ('{' :: r) =
      (flatBody? true r).map fun read => ('{' :: read.1, read.2) := by simp [flatBody?]
  rw [flatBody?_braceFree_append ht, hopen, Option.map_map]
  rfl

/-- A body that goes on without a brace is not closed. -/
theorem flatBody?_of_braceFree {t : Text} (ht : BraceFree t) (inGroup : Bool) :
    flatBody? inGroup t = none := by
  have h := flatBody?_braceFree_append ht inGroup []
  rw [List.append_nil] at h
  rw [h]
  rfl

/-- A second opening brace within a group is refused. -/
theorem flatBody?_opening_inGroup {t : Text} (ht : BraceFree t) (r : Text) :
    flatBody? true (t ++ '{' :: r) = none := by
  have hrefused : flatBody? true ('{' :: r) = none := by simp [flatBody?]
  rw [flatBody?_braceFree_append ht, hrefused]
  rfl

/-- A group is read as a whole. -/
theorem flatBody?_group_append (g : Group) (s : Text) :
    flatBody? false (g.text ++ s) =
      (flatBody? false s).map fun read => (g.text ++ read.1, read.2) := by
  have hclose : ∀ r : Text, flatBody? true ('}' :: r) =
      (flatBody? false r).map fun read => ('}' :: read.1, read.2) := fun r => by simp [flatBody?]
  rw [Group.text_append, flatBody?_opening g.before_free,
    flatBody?_braceFree_append g.inside_free, hclose]
  simp [Option.map_map, Function.comp_def, Group.text_append]

/-- **A flat body is read up to the brace behind it**, whatever follows. -/
theorem flatBody?_text (f : FlatBody) (s : Text) :
    flatBody? false (f.text ++ '}' :: s) = some (f.text, s) := by
  induction f using FlatBody.induction_on with
  | nil t ht =>
    rw [FlatBody.text_ofTail, flatBody?_braceFree_append ht]
    simp [flatBody?]
  | cons g f ih =>
    rw [FlatBody.text_cons, List.append_assoc, flatBody?_group_append, ih]
    rfl

/-- What the scanner has read of a body: a flat body, or, within a group, the rest of the group and
    a flat body behind it. -/
def FlatFrom : (inGroup : Bool) → Text → Prop
  | false, read => ∃ f : FlatBody, f.text = read
  | true, read => ∃ inside, BraceFree inside ∧ ∃ f : FlatBody, inside ++ '}' :: f.text = read

/-- A brace-free character in front of a flat body belongs to its first piece. -/
theorem FlatFrom.cons {c : Char} (hc : isBraceFree c = true) {inGroup : Bool} {read : Text}
    (h : FlatFrom inGroup read) : FlatFrom inGroup (c :: read) := by
  cases inGroup with
  | false =>
    obtain ⟨f, rfl⟩ := h
    cases f using FlatBody.induction_on with
    | nil t ht => exact ⟨.ofTail (c :: t) (ht.cons hc), rfl⟩
    | cons g f =>
      refine ⟨.cons ⟨c :: g.before, g.inside, g.before_free.cons hc, g.inside_free⟩ f, ?_⟩
      simp [Group.text]
  | true =>
    obtain ⟨inside, hi, f, rfl⟩ := h
    exact ⟨c :: inside, hi.cons hc, f, rfl⟩

/-- **What the scanner reads is flat.** -/
theorem flatFrom_of_flatBody? {inGroup : Bool} {s read rest : Text}
    (h : flatBody? inGroup s = some (read, rest)) : FlatFrom inGroup read := by
  induction s generalizing inGroup read rest with
  | nil => cases h
  | cons c r ih =>
    rw [flatBody?] at h
    split at h
    · next ho =>
      -- an opening brace starts a group, which has nothing before it so far
      subst ho
      cases inGroup with
      | true => cases h
      | false =>
        obtain ⟨⟨b, r'⟩, hb, he⟩ := Option.map_eq_some_iff.mp h
        cases he
        obtain ⟨inside, hi, f, rfl⟩ := ih hb
        exact ⟨.cons ⟨[], inside, .nil, hi⟩ f, by simp [Group.text]⟩
    · next ho =>
      split at h
      · next hc =>
        subst hc
        cases inGroup with
        | true =>
          obtain ⟨⟨b, r'⟩, hb, he⟩ := Option.map_eq_some_iff.mp h
          cases he
          obtain ⟨f, rfl⟩ := ih hb
          exact ⟨[], .nil, f, rfl⟩
        | false =>
          cases h
          exact ⟨.ofTail [] .nil, rfl⟩
      · next hc =>
        obtain ⟨⟨b, r'⟩, hb, he⟩ := Option.map_eq_some_iff.mp h
        cases he
        exact (ih hb).cons ((isBraceFree_iff c).mpr ⟨ho, hc⟩)

/-- **The scanner accepts exactly the flat bodies**, each with its closing brace behind it. -/
theorem flatBody?_eq_some_iff (s body rest : Text) :
    flatBody? false s = some (body, rest) ↔
      (∃ f : FlatBody, f.text = body) ∧ s = body ++ '}' :: rest := by
  constructor
  · intro h
    exact ⟨flatFrom_of_flatBody? h, (flatBody?_append h).symm⟩
  · rintro ⟨⟨f, rfl⟩, rfl⟩
    exact flatBody?_text f rest

/-! ## 4. The rules that are cut out -/

/-- The groups that have something before their brace. -/
def FlatBody.rules (f : FlatBody) : List Group := f.groups.filter fun g => !g.before.isEmpty

theorem innerRules_of_braceFree {t : Text} (ht : BraceFree t) : innerRules t = [] := by
  rw [innerRules]
  split
  · rfl
  · next h => rw [ht.dropWhile_eq_nil] at h; cases h

/-- What is cut out of a text depends on its first brace, and on the brace behind that. -/
theorem innerRules_brace {t : Text} (ht : BraceFree t) {brace : Char}
    (hb : isBraceFree brace = false) (r : Text) :
    innerRules (t ++ brace :: r) =
      if brace = '{' then
        match r.dropWhile isBraceFree with
        | [] => []
        | closing :: rest =>
          if closing = '}' then
            if t.isEmpty then innerRules rest
            else (t ++ '{' :: r.takeWhile isBraceFree ++ ['}']) :: innerRules rest
          else innerRules r
      else innerRules r := by
  have hdrop := ht.dropWhile_append hb r
  rw [innerRules]
  split
  · next h => rw [hdrop] at h; cases h
  · next first interior h =>
    rw [hdrop] at h
    cases h
    rw [ht.takeWhile_append hb]
    simp only
    cases r.dropWhile isBraceFree <;> rfl

/-- A closing brace that closes no group is passed over. -/
theorem innerRules_closing {t : Text} (ht : BraceFree t) (r : Text) :
    innerRules (t ++ '}' :: r) = innerRules r := by
  rw [innerRules_brace ht isBraceFree_closing, if_neg (by decide)]

/-- A group that is not closed ends the search. -/
theorem innerRules_opening_of_braceFree {t r : Text} (ht : BraceFree t) (hr : BraceFree r) :
    innerRules (t ++ '{' :: r) = [] := by
  rw [innerRules_brace ht isBraceFree_opening, if_pos rfl, hr.dropWhile_eq_nil]

/-- An opening brace within a group begins the search anew. -/
theorem innerRules_opening_opening {t u : Text} (ht : BraceFree t) (hu : BraceFree u) (r : Text) :
    innerRules (t ++ '{' :: (u ++ '{' :: r)) = innerRules (u ++ '{' :: r) := by
  rw [innerRules_brace ht isBraceFree_opening, if_pos rfl, hu.dropWhile_append isBraceFree_opening]
  exact if_neg (by decide)

/-- A group is cut out as a rule if there is something before its brace; the search goes on behind
    it in any case. -/
theorem innerRules_group_append (g : Group) (s : Text) :
    innerRules (g.text ++ s) = (if g.before.isEmpty then [] else [g.text]) ++ innerRules s := by
  have hclosed := innerRules_brace g.before_free isBraceFree_opening (g.inside ++ '}' :: s)
  rw [if_pos rfl, g.inside_free.dropWhile_append isBraceFree_closing,
    g.inside_free.takeWhile_append isBraceFree_closing] at hclosed
  rw [Group.text_append, hclosed]
  by_cases hg : g.before = [] <;> simp [hg, Group.text]

/-- **The rules cut out of a flat body are its groups with something before the brace.** -/
theorem innerRules_text (f : FlatBody) : innerRules f.text = f.rules.map Group.text := by
  induction f using FlatBody.induction_on with
  | nil t ht => exact innerRules_of_braceFree ht
  | cons g f ih =>
    rw [FlatBody.text_cons, innerRules_group_append, ih]
    cases hg : g.before.isEmpty <;> simp [FlatBody.rules, FlatBody.cons, hg]

end MediaCascade
