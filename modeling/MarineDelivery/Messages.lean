import Mathlib
import MarineDelivery.Models
import MarineDelivery.Pieces
import MarineDelivery.S3
import MarineDelivery.Segments
import MarineDelivery.Validation

/-!
The lines that exceptions are logged with.

The name of the class is cut into words, before every capital that begins one, and the words
after the first are written in lower case unless they are abbreviations; the details follow
after a colon. Nothing is lost by this: the reader below has the class and the details back.

The lemmas on the case of ASCII letters are in no smaller module of Mathlib than the whole.
-/

namespace MarineDelivery.Messages

open MarineDelivery.Pieces MarineDelivery.Models MarineDelivery.Segments

/-! ### Sentences -/

/-- `(?<=[a-z])(?=[A-Z])|(?<=[A-Z])(?=[A-Z][a-z])`, after a letter and before the rest. -/
def wordEnds (a : Char) : List Char → Bool
  | [] => false
  | [b] => a.isLower && b.isUpper
  | b :: c :: _ => a.isLower && b.isUpper || a.isUpper && (b.isUpper && c.isLower)

/-- The loop of `str.istitle`: capitals only where no letter is before them, small letters only
after a letter. -/
def isTitleFrom (previousIsCased : Bool) : List Char → Bool
  | [] => true
  | c :: r =>
    if c.isUpper then !previousIsCased && isTitleFrom true r
    else if c.isLower then previousIsCased && isTitleFrom true r
    else isTitleFrom false r

def isTitle (identifier : List Char) : Bool :=
  isTitleFrom false identifier && identifier.any Char.isAlpha

def titleCaseToLowerCase (identifier : List Char) : List Char :=
  if isTitle identifier then identifier.map Char.toLower else identifier

def camelCaseToSentence (identifier : String) : String :=
  let capitalWords := pieces wordEnds identifier.toList
  let firstWord := capitalWords.take 1
  let otherWords := capitalWords.drop 1
  String.ofList (join ' ' (firstWord ++ otherWords.map titleCaseToLowerCase))

/-! ### Exceptions -/

/-- The name of a class, in ASCII. -/
structure Identifier where
  name : String
  valid : ∀ c ∈ name.toList, c.isAlphanum ∨ c = '_'

/-- An exception as the handler sees it: its class, its `str`, a message of its own, and the
body of its response, which is missing when it is not JSON. -/
structure RaisedException where
  className : Identifier
  text : String
  customExceptionMessage : Option String := none
  response : Option (Option Value) := none

def exceptionToSentence (exception : RaisedException) : String :=
  camelCaseToSentence exception.className.name

variable (jsonDumps : Value → String)

/-- The `detail` in the body of the response. -/
def apiErrorDetail (exception : RaisedException) : Option String := do
  let body ← exception.response
  let value ← body
  let items ← value.items?
  match ← get? "detail" items with
  | .str detail => return detail
  | detail => return jsonDumps detail

def exceptionString (exception : RaisedException) : String :=
  (Validation.truthy (apiErrorDetail jsonDumps exception)).getD (S3.stripQuotes exception.text)

def logException (exception : RaisedException) : String :=
  let exceptionString := exceptionString jsonDumps exception
  let details := if exceptionString = "" then "" else s!": {exceptionString}"
  exceptionToSentence exception ++ details

/-- The line that the decorator of a command logs. -/
def errorLine (exception : RaisedException) : String :=
  match exception.customExceptionMessage with
  | some customExceptionMessage => customExceptionMessage
  | none => logException jsonDumps exception

/-! ### Reading a line -/

/-- `str.title`. -/
def titleFrom (previousIsCased : Bool) : List Char → List Char
  | [] => []
  | c :: r =>
    if c.isAlpha then (if previousIsCased then c.toLower else c.toUpper) :: titleFrom true r
    else c :: titleFrom false r

/-- A word after the first, as it is in the name: there it begins with a capital. -/
def wordOf (w : List Char) : List Char :=
  if w.head?.any Char.isLower then titleFrom false w else w

def identifierOf (sentence : List Char) : List Char :=
  match sentence.splitOn ' ' with
  | [] => []
  | w :: ws => w ++ (ws.map wordOf).flatten

/-- The name of the class and the details, which begin after the first colon. -/
def readLine (line : String) : String × String :=
  (String.ofList (identifierOf (line.toList.takeWhile (· ≠ ':'))),
    String.ofList ((line.toList.dropWhile (· ≠ ':')).drop 2))

/-! ### Words -/

lemma wordEnds_isUpper {a b : Char} {r : List Char} (h : wordEnds a (b :: r) = true) :
    b.isUpper = true := by
  cases r with
  | nil => exact (Bool.and_eq_true_iff.mp h).2
  | cons c r =>
      rcases Bool.or_eq_true_iff.mp h with h | h
      · exact (Bool.and_eq_true_iff.mp h).2
      · exact (Bool.and_eq_true_iff.mp (Bool.and_eq_true_iff.mp h).2).1

/-- A title is told by its letters. -/
lemma titleFrom_map_toLower {previousIsCased : Bool} {w : List Char}
    (h : isTitleFrom previousIsCased w = true) :
    titleFrom previousIsCased (w.map Char.toLower) = w := by
  induction w generalizing previousIsCased with
  | nil => rfl
  | cons c r ih =>
      rw [isTitleFrom] at h
      rw [List.map_cons, titleFrom, Char.isAlpha_toLower_eq_isAlpha]
      split_ifs at h with hupper hlower
      · obtain ⟨hcased, hr⟩ := Bool.and_eq_true_iff.mp h
        have halpha : c.isAlpha = true := by simp [Char.isAlpha, hupper]
        have hsame : c.toUpper = c :=
          Char.toUpper_eq_of_not_isLower (Char.not_isLower_of_isUpper hupper)
        rw [if_pos halpha, if_neg (by simpa using hcased), Char.toUpper_toLower_eq_toUpper,
          hsame, ih hr]
      · obtain ⟨hcased, hr⟩ := Bool.and_eq_true_iff.mp h
        have halpha : c.isAlpha = true := by simp [Char.isAlpha, hlower]
        rw [if_pos halpha, if_pos hcased, Char.toLower_toLower_eq_toLower,
          Char.toLower_eq_of_not_isUpper hupper, ih hr]
      · have halpha : ¬ c.isAlpha = true := by simp [Char.isAlpha, hupper, hlower]
        rw [if_neg halpha, Char.toLower_eq_of_not_isUpper hupper, ih h]

/-- A word that begins with a capital is read back. -/
lemma wordOf_titleCaseToLowerCase {b : Char} (v : List Char) (hb : b.isUpper = true) :
    wordOf (titleCaseToLowerCase (b :: v)) = b :: v := by
  unfold titleCaseToLowerCase
  split_ifs with htitle
  · have hlower : b.toLower.isLower = true := by
      rw [Char.isLower_toLower_eq_isAlpha, Char.isAlpha, hb, Bool.true_or]
    rw [wordOf, if_pos (by simpa using hlower)]
    exact titleFrom_map_toLower (Bool.and_eq_true_iff.mp htitle).1
  · rw [wordOf, if_neg (by simpa using Char.not_isLower_of_isUpper hb)]

lemma notMem_titleCaseToLowerCase {x : Char} (hx : x.isAlpha = false) {w : List Char}
    (h : x ∉ w) : x ∉ titleCaseToLowerCase w := by
  unfold titleCaseToLowerCase
  split_ifs
  · intro hmem
    obtain ⟨c, hc, rfl⟩ := List.mem_map.mp hmem
    rw [Char.isAlpha_toLower_eq_isAlpha] at hx
    have hupper : ¬ c.isUpper = true := fun hu => by simp [Char.isAlpha, hu] at hx
    rw [Char.toLower_eq_of_not_isUpper hupper] at h
    exact h hc
  · exact h

/-! ### Sentences read back -/

/-- The words of a sentence. -/
def sentenceWords (identifier : String) : List (List Char) :=
  (pieces wordEnds identifier.toList).take 1 ++
    ((pieces wordEnds identifier.toList).drop 1).map titleCaseToLowerCase

lemma toList_camelCaseToSentence (identifier : String) :
    (camelCaseToSentence identifier).toList = join ' ' (sentenceWords identifier) :=
  String.toList_ofList

lemma notMem_of_mem_sentenceWords {identifier : String} {x : Char} (hx : x.isAlpha = false)
    (h : x ∉ identifier.toList) : ∀ w ∈ sentenceWords identifier, x ∉ w := by
  have hpieces : ∀ w ∈ pieces wordEnds identifier.toList, x ∉ w := by
    intro w hw hmem
    refine h ?_
    rw [← @flatten_pieces _ wordEnds identifier.toList]
    exact List.mem_flatten.mpr ⟨w, hw, hmem⟩
  intro w hw
  rcases List.mem_append.mp hw with hw | hw
  · exact hpieces w (List.mem_of_mem_take hw)
  · obtain ⟨v, hv, rfl⟩ := List.mem_map.mp hw
    exact notMem_titleCaseToLowerCase hx (hpieces v (List.mem_of_mem_drop hv))

/-- **A name is read back from its sentence.** -/
theorem identifierOf_camelCaseToSentence {identifier : String} (h : ' ' ∉ identifier.toList) :
    identifierOf (camelCaseToSentence identifier).toList = identifier.toList := by
  have hspace := notMem_of_mem_sentenceWords (by decide) h
  have hcut : identifier.toList = (pieces wordEnds identifier.toList).flatten ∧
      Cut wordEnds (pieces wordEnds identifier.toList) := pieces_eq_iff.mp rfl
  rw [toList_camelCaseToSentence]
  unfold sentenceWords at hspace ⊢
  cases hp : pieces wordEnds identifier.toList with
  | nil =>
      rw [hp] at hcut
      rw [hcut.1]
      rfl
  | cons w ws =>
      rw [hp] at hcut hspace
      have hsplit : (join ' ' (w :: ws.map titleCaseToLowerCase)).splitOn ' ' =
          w :: ws.map titleCaseToLowerCase :=
        List.splitOn_intercalate ' ' hspace (List.cons_ne_nil _ _)
      have hwords : (ws.map titleCaseToLowerCase).map wordOf = ws := by
        rw [List.map_map]
        refine (List.map_congr_left fun v hv => ?_).trans (List.map_id ws)
        obtain ⟨a, b, v, r, rfl, hstop⟩ := hcut.2.exists_stop v hv
        exact wordOf_titleCaseToLowerCase v (wordEnds_isUpper hstop)
      change identifierOf (join ' ' (w :: ws.map titleCaseToLowerCase)) = _
      rw [identifierOf, hsplit]
      dsimp only
      rw [hwords, hcut.1, List.flatten_cons]

example : camelCaseToSentence "InvalidDeliveryIdsError" = "Invalid delivery ids error" := by
  decide +kernel

/-! ### Lines read back -/

lemma mem_join {x sep : Char} {cs : List (List Char)} (h : x ∈ join sep cs) :
    x = sep ∨ ∃ c ∈ cs, x ∈ c := by
  induction cs with
  | nil => cases h
  | cons c cs ih =>
      cases cs with
      | nil => exact Or.inr ⟨c, List.mem_cons_self, by simpa [join] using h⟩
      | cons d ds =>
          rw [join_cons_cons] at h
          rcases List.mem_append.mp h with h | h
          · exact Or.inr ⟨c, List.mem_cons_self, h⟩
          · rcases List.mem_cons.mp h with h | h
            · exact Or.inl h
            · obtain hsep | ⟨e, he, hx⟩ := ih h
              · exact Or.inl hsep
              · exact Or.inr ⟨e, List.mem_cons_of_mem _ he, hx⟩

lemma Identifier.notMem (n : Identifier) {x : Char} (hx : x.isAlphanum = false) (hne : x ≠ '_') :
    x ∉ n.name.toList := by
  intro hmem
  rcases n.valid x hmem with h | h
  · rw [hx] at h
    cases h
  · exact hne h

lemma colon_notMem_exceptionToSentence (exception : RaisedException) :
    ':' ∉ (exceptionToSentence exception).toList := by
  intro hmem
  have hname : ':' ∉ exception.className.name.toList :=
    exception.className.notMem (by decide) (by decide)
  rw [exceptionToSentence, toList_camelCaseToSentence] at hmem
  obtain h | ⟨w, hw, h⟩ := mem_join hmem
  · exact absurd h (by decide)
  · exact notMem_of_mem_sentenceWords (by decide) hname w hw h

/-- **The line of an exception says which it was**: the name of its class and the details are
read back from it, unless the exception has a message of its own. -/
theorem errorLine_read_back (exception : RaisedException)
    (h : exception.customExceptionMessage = none) :
    readLine (errorLine jsonDumps exception) =
      (exception.className.name, exceptionString jsonDumps exception) := by
  have hname : ' ' ∉ exception.className.name.toList :=
    exception.className.notMem (by decide) (by decide)
  have hsentence : ∀ c ∈ (exceptionToSentence exception).toList, decide (c ≠ ':') = true := by
    intro c hc
    refine decide_eq_true fun hcolon => ?_
    exact colon_notMem_exceptionToSentence exception (hcolon ▸ hc)
  have hread : identifierOf (exceptionToSentence exception).toList =
      exception.className.name.toList := identifierOf_camelCaseToSentence hname
  unfold errorLine logException readLine
  rw [h]
  dsimp only
  rw [String.toList_append, List.takeWhile_append_of_pos hsentence,
    List.dropWhile_append_of_pos hsentence]
  split_ifs with hempty
  · rw [hempty]
    simp [hread]
  · have hdetails : (s!": {exceptionString jsonDumps exception}").toList =
        ':' :: ' ' :: (exceptionString jsonDumps exception).toList := by
      rw [String.toList_append]
      rfl
    rw [hdetails]
    simp [hread]

def refusedException : RaisedException where
  className := ⟨"HTTPError", by simp⟩
  text := "403 Client Error"
  response := some (some (.dict [(.str "detail", .str "Not allowed: prod")]))

theorem errorLine_read_back_refused :
    errorLine (fun _ => "") refusedException = "HTTP error: Not allowed: prod" ∧
      readLine (errorLine (fun _ => "") refusedException) =
        ("HTTPError", "Not allowed: prod") := by
  have hdetails : exceptionString (fun _ => "") refusedException = "Not allowed: prod" := by
    decide +kernel
  refine ⟨by decide +kernel, (errorLine_read_back _ refusedException rfl).trans ?_⟩
  rw [hdetails]
  rfl

end MarineDelivery.Messages
