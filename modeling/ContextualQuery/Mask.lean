/-!
# Masked terms

In a term `*` stands for any run of characters and `?` for exactly one; a backslash makes the next
character literal. The file fixes

* `Mask.elements`, the reading of a term as a list of `MaskElement`s,
* `hasWildcards` and `unescape`, for terms that mask nothing,
* `toLike`, the same mask as a pattern with `%`, `_` and backslash escapes,
* `Scan.turn`, one move of a scan of a text by the elements of a mask, and
* `maskMatches`, which decides whether a text fits a mask by the moves of a scan.
-/

namespace ContextualQuery

/-- One element of a mask. -/
inductive MaskElement
  | anyRun
  | anyOne
  | literal (c : Char)
  deriving DecidableEq, Repr

/-! ## 1. Reading a term -/

/-- The elements of a term. A backslash at the end is literal. -/
def Mask.elements : List Char → List MaskElement
  | [] => []
  | ['\\'] => [.literal '\\']
  | '\\' :: c :: rest => .literal c :: Mask.elements rest
  | c :: rest =>
    (if c = '*' then .anyRun else if c = '?' then .anyOne else .literal c) :: Mask.elements rest

/-- Whether the term masks anything. -/
def hasWildcards : List Char → Bool
  | [] => false
  | '\\' :: _ :: rest => hasWildcards rest
  | c :: rest => c == '*' || c == '?' || hasWildcards rest

/-- The literal text of a term: every backslash gives way to the character after it. -/
def unescape : List Char → List Char
  | [] => []
  | '\\' :: c :: rest => c :: unescape rest
  | c :: rest => c :: unescape rest

/-- The term as a pattern in which `%` is any run, `_` any one character, and a backslash escapes. -/
def toLike : List Char → List Char
  | [] => []
  | ['\\'] => ['\\', '\\']
  | '\\' :: c :: rest =>
    if c = '%' ∨ c = '_' ∨ c = '\\' then '\\' :: c :: toLike rest else c :: toLike rest
  | c :: rest =>
    if c = '*' then '%' :: toLike rest
    else if c = '?' then '_' :: toLike rest
    else if c = '%' ∨ c = '_' then '\\' :: c :: toLike rest
    else c :: toLike rest

/-! ## 2. Scans

A text is scanned along with the elements, from the first of each. A run takes nothing at first. Where the
text does not go on as the elements ask, the scan returns to the last run that it met, which then takes one
character more; the runs before it keep what they have. -/

/-- Whether an element other than a run takes a character. -/
def MaskElement.takes : MaskElement → Char → Bool
  | .anyRun, _ => false
  | .anyOne, _ => true
  | .literal d, c => d == c

/-- Where a scan stands: at an element, at a place in the text and, once it has met a run, with an element
and a place to resume from. These are the element behind the last run and the place up to which it takes. -/
structure Scan where
  element : Nat
  place : Nat
  resume? : Option (Nat × Nat)
  deriving DecidableEq, Repr

/-- What a scan comes to: an answer, or a new stand. -/
inductive Turn
  | answer (fits : Bool)
  | goOn (s : Scan)
  deriving DecidableEq, Repr

namespace Scan

/-- A scan before its first move. -/
def start : Scan := ⟨0, 0, none⟩

/-- Where the scan resumes from. Before the first run that is where it started. -/
def resume (s : Scan) : Nat × Nat := s.resume?.getD (0, 0)

/-- The last run takes one character more. Without a run the text does not fit. -/
def retry (s : Scan) : Turn :=
  match s.resume? with
  | some (element, place) => .goOn ⟨element, place + 1, some (element, place + 1)⟩
  | none => .answer false

/-- One move of a scan. At the end of the text only runs may be left. -/
def turn (es : Array MaskElement) (text : Array Char) (s : Scan) : Turn :=
  if h : s.place < text.size then
    match es[s.element]? with
    | some .anyRun => .goOn ⟨s.element + 1, s.place, some (s.element + 1, s.place)⟩
    | e? =>
      if e?.any (·.takes text[s.place]) then .goOn ⟨s.element + 1, s.place + 1, s.resume?⟩
      else s.retry
  else .answer ((es.toList.drop s.element).all (· == .anyRun))

variable {es : Array MaskElement} {text : Array Char} {s t : Scan}

/-- The moves of a scan: onto a run, past an element that takes the next character, and from a mismatch back
to the last run. -/
inductive Moves (es : Array MaskElement) (text : Array Char) (s : Scan) : Scan → Prop
  | run (hplace : s.place < text.size) (helement : es[s.element]? = some .anyRun) :
    Moves es text s ⟨s.element + 1, s.place, some (s.element + 1, s.place)⟩
  | take {c : Char} {e : MaskElement} (hplace : text[s.place]? = some c)
      (helement : es[s.element]? = some e) (htakes : e.takes c = true) :
    Moves es text s ⟨s.element + 1, s.place + 1, s.resume?⟩
  | retry {c : Char} {element place : Nat} (hplace : text[s.place]? = some c)
      (helement : ∀ e, es[s.element]? = some e → e ≠ .anyRun ∧ e.takes c = false)
      (hresume : s.resume? = some (element, place)) :
    Moves es text s ⟨element, place + 1, some (element, place + 1)⟩

theorem retry_eq_goOn_iff :
    s.retry = .goOn t ↔ ∃ element place, s.resume? = some (element, place) ∧
      t = ⟨element, place + 1, some (element, place + 1)⟩ := by
  unfold retry
  constructor
  · intro h
    split at h
    · rename_i element place hr
      cases h
      exact ⟨element, place, hr, rfl⟩
    · cases h
  · rintro ⟨element, place, hr, rfl⟩
    rw [hr]

theorem moves_of_turn (h : s.turn es text = .goOn t) : Moves es text s t := by
  unfold turn at h
  split at h
  · rename_i hplace
    have hc : text[s.place]? = some text[s.place] := Array.getElem?_eq_getElem hplace
    split at h
    · rename_i helement
      cases h
      exact .run hplace helement
    · rename_i hrun
      split at h
      · rename_i htakes
        obtain ⟨e, helement, htakes⟩ := (Option.any_eq_true _ _).mp htakes
        cases h
        exact .take hc helement htakes
      · rename_i htakes
        obtain ⟨element, place, hresume, rfl⟩ := retry_eq_goOn_iff.mp h
        refine .retry hc (fun e helement => ⟨?_, ?_⟩) hresume
        · exact fun he => hrun (he ▸ helement)
        · rw [Bool.not_eq_true, Option.any_eq_false] at htakes
          exact htakes e helement
  · cases h

/-- A scan stands within both sequences, and between where it resumes and where it stands there are as many
elements as characters. -/
structure Within (es : Array MaskElement) (text : Array Char) (s : Scan) : Prop where
  element_le : s.element ≤ es.size
  place_le : s.place ≤ text.size
  resume_le : s.resume.1 ≤ s.element
  even : s.element + s.resume.2 = s.place + s.resume.1

theorem within_start : start.Within es text := ⟨Nat.zero_le _, Nat.zero_le _, Nat.le_refl _, rfl⟩

theorem Within.move (h : s.Within es text) (hm : Moves es text s t) : t.Within es text := by
  obtain ⟨helement, hplace, hresume, heven⟩ := h
  cases hm with
  | run hp he =>
    have hlt : s.element < es.size := (Array.getElem?_eq_some_iff.mp he).1
    exact ⟨hlt, hplace, Nat.le_refl _, Nat.add_comm _ _⟩
  | take hc he _ =>
    have hlt : s.element < es.size := (Array.getElem?_eq_some_iff.mp he).1
    have hplt : s.place < text.size := (Array.getElem?_eq_some_iff.mp hc).1
    refine ⟨hlt, hplt, Nat.le_succ_of_le hresume, ?_⟩
    show s.element + 1 + s.resume.2 = s.place + 1 + s.resume.1
    omega
  | retry hc _ hr =>
    have hplt : s.place < text.size := (Array.getElem?_eq_some_iff.mp hc).1
    rw [resume, hr, Option.getD_some] at hresume heven
    refine ⟨Nat.le_trans hresume helement, ?_, Nat.le_refl _, Nat.add_comm _ _⟩
    show _ + 1 ≤ text.size
    omega

/-- The moves that may be left: for every character that the last run may still take as many as there are
elements behind it and one more, less those that the scan has made since it resumed. -/
def left (es : Array MaskElement) (text : Array Char) (s : Scan) : Nat :=
  (text.size - s.resume.2) * (es.size - s.resume.1 + 1) - (s.element - s.resume.1)

theorem Within.left_lt (h : s.Within es text) (hm : Moves es text s t) :
    t.left es text < s.left es text := by
  obtain ⟨helement, hplace, hresume, heven⟩ := h
  obtain ⟨passed, hpassed⟩ := Nat.exists_eq_add_of_le hresume
  obtain ⟨a, ha⟩ := Nat.exists_eq_add_of_le hplace
  obtain ⟨b, hb⟩ := Nat.exists_eq_add_of_le helement
  have htext : text.size - s.resume.2 = passed + a := by omega
  have hes : es.size - s.resume.1 = passed + b := by omega
  have hleft : s.left es text = (passed + a) * (passed + b + 1) - passed := by
    rw [left, htext, hes, hpassed, Nat.add_sub_cancel_left]
  rw [hleft]
  cases hm with
  | run hp he =>
    have hlt : s.element < es.size := (Array.getElem?_eq_some_iff.mp he).1
    have hnew : left es text ⟨s.element + 1, s.place, some (s.element + 1, s.place)⟩ = a * b := by
      have hchars : text.size - s.place = a := by omega
      have helements : es.size - (s.element + 1) + 1 = b := by omega
      rw [left, resume, Option.getD_some, hchars, helements, Nat.sub_self, Nat.sub_zero]
    rw [hnew]
    simp only [Nat.mul_add, Nat.add_mul]
    omega
  | take hc he _ =>
    have hlt : s.element < es.size := (Array.getElem?_eq_some_iff.mp he).1
    have hplt : s.place < text.size := (Array.getElem?_eq_some_iff.mp hc).1
    have hnew : left es text ⟨s.element + 1, s.place + 1, s.resume?⟩ =
        (passed + a) * (passed + b + 1) - (passed + 1) := by
      have hnext : s.element + 1 - s.resume.1 = passed + 1 := by omega
      show (text.size - s.resume.2) * (es.size - s.resume.1 + 1) - (s.element + 1 - s.resume.1) = _
      rw [htext, hes, hnext]
    have hmany : 1 * (passed + b + 1) ≤ (passed + a) * (passed + b + 1) :=
      Nat.mul_le_mul_right _ (by omega)
    omega
  | @retry c element place hc _ hr =>
    have hplt : s.place < text.size := (Array.getElem?_eq_some_iff.mp hc).1
    have hnew : left es text ⟨element, place + 1, some (element, place + 1)⟩ =
        (passed + a - 1) * (passed + b + 1) := by
      rw [resume, hr, Option.getD_some] at htext hes
      have hchars : text.size - (place + 1) = passed + a - 1 := by omega
      rw [left, resume, Option.getD_some, hchars, hes, Nat.sub_self, Nat.sub_zero]
    obtain ⟨k, hk⟩ : ∃ k, passed + a = k + 1 := ⟨passed + a - 1, by omega⟩
    rw [hnew, hk, Nat.add_sub_cancel, Nat.succ_mul]
    omega

/-- The answer of a scan. -/
def run (es : Array MaskElement) (text : Array Char) (s : Scan) (h : s.Within es text) : Bool :=
  match ht : s.turn es text with
  | .answer fits => fits
  | .goOn t => run es text t (h.move (moves_of_turn ht))
termination_by s.left es text
decreasing_by exact h.left_lt (moves_of_turn ht)

end Scan

/-- Whether a text fits a list of elements. -/
def elementsMatch (es : List MaskElement) (text : List Char) : Bool :=
  Scan.start.run es.toArray text.toArray Scan.within_start

/-- Whether a text fits a masked term. -/
def maskMatches (text mask : List Char) : Bool := elementsMatch (Mask.elements mask) text

end ContextualQuery
