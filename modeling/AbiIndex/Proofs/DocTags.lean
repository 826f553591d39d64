import AbiIndex.Proofs.Lexing
import AbiIndex.Proofs.Trimming
import AbiIndex.Source.Natspec

/-!
# Reading back the tags of documentation

The tags of a documentation are written one behind the other, each with its name and the words of
its text, and any white space between the words: a text goes on over as many lines as it likes.
Reading finds each tag again, because no word holds the sign of a tag, and sorts what the tags say.
Where no two of them say the same thing, everything that was written is read, in the order in which
it was written.

## Key results

- `readText_append`: a text goes on up to its last character that is not white space
- `exists_readTag_line`: a tag is read as it is written
- `tags_written`: the tags of a comment are those that are written in it
- `Note.add_record`: a tag that says something new is added at the end
- `parse_written`: what the tags say is read back
-/

namespace AbiIndex.Text

/-! ## Words -/

theorem words_append_of_blank {bs : List Char} (hbs : ∀ b ∈ bs, isBlank b) (cs : List Char) :
    words (bs ++ cs) = words cs := by
  induction bs with
  | nil => rfl
  | cons b bs ih =>
    obtain ⟨hb, hbs⟩ := List.forall_mem_cons.1 hbs
    rw [← ih hbs, List.cons_append, words, pieces, if_pos hb]
    rfl

/-- A word in front of white space, or at the end. -/
theorem words_append {w tail : List Char} (hne : w ≠ []) (hw : ∀ c ∈ w, isBlank c = false)
    (htail : ∀ c ∈ tail.head?, isBlank c) : words (w ++ tail) = w :: words tail := by
  cases tail with
  | nil =>
    rw [words, pieces_eq_splitOnP, List.append_nil, List.splitOnP_eq_singleton hw]
    simp [hne, words, pieces]
  | cons c rest =>
    have hc : isBlank c := htail c rfl
    rw [words, pieces_eq_splitOnP, List.splitOnP_append_cons_of_forall_mem hw c hc, words,
      pieces, if_pos hc, pieces_eq_splitOnP]
    simp [hne]

end AbiIndex.Text

namespace AbiIndex.Source.Natspec

open AbiIndex.Text

/-! ## Written tags -/

/-- A word of a text. -/
structure Word where
  chars : List Char
  nonempty : chars ≠ []
  unbroken : ∀ c ∈ chars, isBlank c = false
  untagged : '@' ∉ chars

/-- The word as a string. -/
def Word.text (w : Word) : String := String.ofList w.chars

/-- A text of one or more words. -/
structure Phrase where
  words : List Word
  nonempty : words ≠ []

/-- Words with single spaces in between. -/
def joined (ws : List Word) : List Char := [' '].intercalate (ws.map (·.chars))

/-- The text on one line. -/
def Phrase.text (p : Phrase) : String := String.ofList (joined p.words)

/-- White space in front of a word. -/
structure Gap where
  chars : List Char
  nonempty : chars ≠ []
  blank : chars.all isBlank

/-- A single space. -/
def Gap.space : Gap := ⟨Spacing.space.chars, List.cons_ne_nil _ _, Spacing.space.blank⟩

/-- Words, each behind white space. Where a line break is in it, the text goes on on the next
line. -/
def spread (gap : Nat → Gap) : List Word → List Char
  | [] => []
  | w :: ws => (gap 0).chars ++ (w.chars ++ spread (fun i => gap (i + 1)) ws)

/-- A word, or two words with a colon in between. -/
inductive IsTagName : List Char → Prop
  | word {w : List Char} (hne : w ≠ []) (hw : ∀ c ∈ w, isWordChar c) : IsTagName w
  | pair {w v : List Char} (hne : w ≠ []) (hw : ∀ c ∈ w, isWordChar c) (hne' : v ≠ [])
      (hv : ∀ c ∈ v, isWordChar c) : IsTagName (w ++ ':' :: v)

/-- The names of the tags that have fields of their own. -/
def reserved : List String := ["notice", "dev", "param", "return", "returns"]

/-- The name of a tag that has no field of its own, in lower case. -/
structure CustomName where
  text : String
  isTagName : IsTagName text.toList
  isLower : lower text.toList = text.toList
  isFree : text ∉ reserved

/-- What a tag can say. A value that is returned has a name and a text, or it is a single word; its
tag is written in two ways. -/
inductive Note
  | notice (text : Phrase)
  | dev (text : Phrase)
  | param (name : Word) (text : Phrase)
  | returned (plural : Bool) (name : Word) (text : Phrase)
  | result (plural : Bool) (word : Word)
  | custom (name : CustomName) (text : Phrase)

namespace Note

/-- The name of the tag. -/
def name : Note → String
  | notice _ => "notice"
  | dev _ => "dev"
  | param _ _ => "param"
  | returned plural _ _ | result plural _ => if plural then "returns" else "return"
  | custom name _ => name.text

/-- The words behind the name of the tag. -/
def words : Note → List Word
  | notice text | dev text | custom _ text => text.words
  | param name text | returned _ name text => name :: text.words
  | result _ word => [word]

/-- The tag that is read. -/
def tag (n : Note) : Tag := ⟨n.name, String.ofList (joined n.words)⟩

@[simp] def notice? : Note → Option String
  | notice text => some text.text
  | _ => none

@[simp] def dev? : Note → Option String
  | dev text => some text.text
  | _ => none

@[simp] def param? : Note → Option (String × String)
  | param name text => some (name.text, text.text)
  | _ => none

/-- A single word is the text of the value without a name. -/
@[simp] def return? : Note → Option (String × String)
  | returned _ name text => some (name.text, text.text)
  | result _ word => some ("", word.text)
  | _ => none

@[simp] def custom? : Note → Option (String × String)
  | custom name text => some (name.text, text.text)
  | _ => none

/-- What the tags say together, in their order. -/
def record (notes : List Note) : Natspec :=
  ⟨(notes.filterMap notice?).head?, (notes.filterMap dev?).head?, notes.filterMap param?,
    notes.filterMap return?, notes.filterMap custom?⟩

/-- No two tags say the same thing. -/
structure Consistent (notes : List Note) : Prop where
  notice : (notes.filterMap notice?).length ≤ 1
  dev : (notes.filterMap dev?).length ≤ 1
  params : ((notes.filterMap param?).map Prod.fst).Nodup
  returns : ((notes.filterMap return?).map Prod.fst).Nodup
  customs : ((notes.filterMap custom?).map Prod.fst).Nodup

end Note

/-- A tag as it is written, with the white space in front of its words and that in front of the next
tag. -/
structure Line where
  note : Note
  gap : Nat → Gap
  behind : List Char
  blank : ∀ c ∈ behind, isBlank c

/-- The text of a written tag. -/
def Line.chars (l : Line) : List Char :=
  '@' :: (l.note.name.toList ++ (spread l.gap l.note.words ++ l.behind))

/-- The text of written tags. -/
def written (lines : List Line) : List Char := lines.flatMap Line.chars

/-! ## Reading a tag -/

theorem isWordChar_eq_false_of_isBlank {c : Char} (h : isBlank c) : isWordChar c = false := by
  have := Lexeme.of_isBlank (p := fun c => !isWordChar c) (by decide +kernel) h
  simpa using this

theorem readName_append {name tail : List Char} (h : IsTagName name)
    (htail : ∀ b ∈ tail.head?, isBlank b) : readName (name ++ tail) = (name, tail) := by
  have hstop : ∀ b ∈ tail.head?, isWordChar b = false := fun b hb =>
    isWordChar_eq_false_of_isBlank (htail b hb)
  cases h with
  | word hne hw =>
    obtain ⟨htake, hdrop⟩ := Lexeme.takeWhile_append_of_head (List.all_eq_true.2 hw) hstop
    rw [readName, htake, hdrop]
    split
    · exact absurd (htail ':' rfl) (by decide)
    · rfl
  | @pair w v hne hw hne' hv =>
    -- the first word ends at the colon, and the name goes on with the word behind it
    rw [List.append_assoc, List.cons_append]
    have hcolon : ∀ c ∈ (':' :: (v ++ tail)).head?, isWordChar c = false := by
      intro c hc
      cases hc
      decide
    obtain ⟨htake, hdrop⟩ := Lexeme.takeWhile_append_of_head (List.all_eq_true.2 hw) hcolon
    obtain ⟨htake', hdrop'⟩ := Lexeme.takeWhile_append_of_head (List.all_eq_true.2 hv) hstop
    obtain ⟨c, cs, rfl⟩ := List.exists_cons_of_ne_nil hne'
    have hc : isWordChar c := hv c List.mem_cons_self
    rw [readName, htake, hdrop]
    simp only [List.cons_append] at htake' hdrop' ⊢
    rw [if_pos ⟨hne, by simpa using hc⟩, htake', hdrop']

/-- The text of a tag goes on up to the last character of it that is not white space. -/
theorem readText_append {cs : List Char} (huntagged : '@' ∉ cs)
    (hlast : ∀ c ∈ cs.getLast?, isBlank c = false) (tail : List Char) :
    readText (cs ++ tail) = (cs ++ (readText tail).1, (readText tail).2) := by
  induction cs with
  | nil => rfl
  | cons c cs ih =>
    obtain ⟨hc, hcs⟩ := not_or.1 (mt List.mem_cons.2 huntagged)
    have hlast' : ∀ d ∈ cs.getLast?, isBlank d = false := by
      cases cs with
      | nil => simp
      | cons d cs => exact hlast
    have hgo : ¬ (c = '@' ∨ c = '\n' ∧ ((cs ++ tail).dropWhile isBlank).head? = some '@') := by
      rintro (rfl | ⟨rfl, hat⟩)
      · exact hc rfl
      · -- a character that is not white space stands between the line break and the end
        cases hdrop : cs.dropWhile isBlank with
        | nil =>
          have hblank : ∀ d ∈ '\n' :: cs, isBlank d :=
            List.forall_mem_cons.2 ⟨by decide, List.dropWhile_eq_nil_iff.1 hdrop⟩
          have hmem := List.getLast_mem (List.cons_ne_nil '\n' cs)
          have hfalse := hlast _ (List.getLast_mem_getLast? (List.cons_ne_nil '\n' cs))
          exact Bool.false_ne_true (hfalse.symm.trans (hblank _ hmem))
        | cons d ds =>
          rw [List.dropWhile_append, hdrop] at hat
          cases hat
          exact hcs ((List.dropWhile_sublist isBlank).subset (hdrop ▸ List.mem_cons_self))
    rw [List.cons_append, readText, if_neg hgo, ih hcs hlast']
    rfl

/-- Behind the text of a tag, white space is read up to the line break in front of the next tag, or
up to that tag. -/
theorem exists_readText_of_blank {bs rest : List Char} (hbs : ∀ b ∈ bs, isBlank b)
    (hrest : ∀ c ∈ rest.head?, c = '@') :
    ∃ front back, bs = front ++ back ∧ readText (bs ++ rest) = (front, back ++ rest) := by
  induction bs with
  | nil =>
    refine ⟨[], [], rfl, ?_⟩
    cases rest with
    | nil => rfl
    | cons c rest => simp [readText, hrest c rfl]
  | cons b bs ih =>
    obtain ⟨hb, hbs⟩ := List.forall_mem_cons.1 hbs
    rw [List.cons_append, readText]
    split
    · exact ⟨[], b :: bs, rfl, rfl⟩
    · obtain ⟨front, back, rfl, hread⟩ := ih hbs
      exact ⟨b :: front, back, rfl, by rw [hread]⟩

/-! ## Reading all tags -/

theorem IsTagName.exists_head {name : List Char} (h : IsTagName name) :
    ∃ c cs, name = c :: cs ∧ isWordChar c := by
  cases h with
  | @word w hne hw =>
    obtain ⟨c, cs, rfl⟩ := List.exists_cons_of_ne_nil hne
    exact ⟨c, cs, rfl, hw c List.mem_cons_self⟩
  | @pair w v hne hw _ _ =>
    obtain ⟨c, cs, rfl⟩ := List.exists_cons_of_ne_nil hne
    exact ⟨c, cs ++ ':' :: v, rfl, hw c List.mem_cons_self⟩

/-- White space stands in front of the first word. -/
theorem exists_head_spread (gap : Nat → Gap) {ws : List Word} (hne : ws ≠ []) (tail : List Char) :
    ∃ b, (spread gap ws ++ tail).head? = some b ∧ isBlank b := by
  obtain ⟨w, ws, rfl⟩ := List.exists_cons_of_ne_nil hne
  obtain ⟨b, bs, hgap⟩ := List.exists_cons_of_ne_nil (gap 0).nonempty
  refine ⟨b, ?_, List.all_eq_true.1 (gap 0).blank b (by simp [hgap])⟩
  rw [spread, hgap]
  rfl

/-- The words are those of the text, whatever white space is between and behind them. -/
theorem words_spread (gap : Nat → Gap) (ws : List Word) {back : List Char}
    (hback : ∀ c ∈ back, isBlank c) : words (spread gap ws ++ back) = ws.map (·.chars) := by
  induction ws generalizing gap with
  | nil =>
    have hwords := words_append_of_blank hback []
    rw [List.append_nil] at hwords
    rw [spread, List.nil_append, hwords]
    rfl
  | cons w ws ih =>
    have hhead : ∀ c ∈ (spread (fun i => gap (i + 1)) ws ++ back).head?, isBlank c := by
      cases ws with
      | nil => exact fun c hc => hback c (List.mem_of_head? hc)
      | cons w' ws =>
        obtain ⟨b, hb, hblank⟩ :=
          exists_head_spread (fun i => gap (i + 1)) (List.cons_ne_nil w' ws) back
        rw [hb]
        simpa using hblank
    rw [spread, List.append_assoc, List.append_assoc,
      words_append_of_blank (List.all_eq_true.1 (gap 0).blank),
      words_append w.nonempty w.unbroken hhead, ih]
    rfl

theorem Word.isTrimmed (w : Word) : IsTrimmed w.chars :=
  ⟨fun c hc => w.unbroken c (List.mem_of_head? hc),
    fun c hc => w.unbroken c (List.mem_of_getLast? hc)⟩

/-- Behind the first gap the text begins with a word, and it ends with a word. -/
theorem exists_spread_eq (gap : Nat → Gap) {ws : List Word} (hne : ws ≠ []) :
    ∃ body, spread gap ws = (gap 0).chars ++ body ∧ body ≠ [] ∧ '@' ∉ body ∧ IsTrimmed body := by
  induction ws generalizing gap with
  | nil => exact absurd rfl hne
  | cons w ws ih =>
    refine ⟨_, rfl, List.append_ne_nil_of_left_ne_nil w.nonempty _, ?_⟩
    cases ws with
    | nil =>
      rw [spread, List.append_nil]
      exact ⟨w.untagged, w.isTrimmed⟩
    | cons w' ws =>
      obtain ⟨body, hbody, hbodyne, huntagged, htrimmed⟩ :=
        ih (fun i => gap (i + 1)) (List.cons_ne_nil w' ws)
      have hgap : '@' ∉ (gap 1).chars := fun hmem =>
        absurd (List.all_eq_true.1 (gap 1).blank _ hmem) (by decide)
      rw [hbody]
      refine ⟨by simp [w.untagged, hgap, huntagged], ?_, ?_⟩
      · rw [List.head?_append_of_ne_nil _ w.nonempty]
        exact w.isTrimmed.head
      · rw [← List.append_assoc, List.getLast?_append_of_ne_nil _ hbodyne]
        exact htrimmed.last

theorem Note.words_ne_nil (n : Note) : n.words ≠ [] := by
  cases n with
  | notice text | dev text | custom _ text => exact text.nonempty
  | param name text | returned _ name text => exact List.cons_ne_nil _ _
  | result _ word => exact List.cons_ne_nil _ _

theorem isTagName_of_mem_reserved {name : String} (h : name ∈ reserved) :
    IsTagName name.toList ∧ lower name.toList = name.toList := by
  have hall : ∀ s ∈ reserved, s.toList ≠ [] ∧ s.toList.all isWordChar ∧
      lower s.toList = s.toList := by decide
  obtain ⟨hne, hword, hlower⟩ := hall name h
  exact ⟨.word hne (List.all_eq_true.1 hword), hlower⟩

theorem Note.isTagName (n : Note) :
    IsTagName n.name.toList ∧ lower n.name.toList = n.name.toList := by
  cases n with
  | notice _ | dev _ | param _ _ => exact isTagName_of_mem_reserved (by simp [Note.name, reserved])
  | returned plural _ _ | result plural _ =>
    cases plural <;> exact isTagName_of_mem_reserved (by simp [Note.name, reserved])
  | custom name text => exact ⟨name.isTagName, name.isLower⟩

/-- The words are the text of the tag. What is left is the text behind them, in front of which white
space may be left. -/
theorem exists_readText_spread (gap : Nat → Gap) {ws : List Word} (hws : ws ≠ [])
    {behind rest : List Char} (hbehind : ∀ b ∈ behind, isBlank b)
    (hrest : ∀ c ∈ rest.head?, c = '@') : ∃ text back, (∀ b ∈ back, isBlank b) ∧
      readText ((spread gap ws ++ (behind ++ rest)).dropWhile isBlank) = (text, back ++ rest) ∧
      unwrap text = joined ws := by
  obtain ⟨body, hbody, hne, huntagged, htrimmed⟩ := exists_spread_eq gap hws
  obtain ⟨front, back, rfl, hread⟩ := exists_readText_of_blank hbehind hrest
  rw [List.forall_mem_append] at hbehind
  have hwords := words_spread gap ws hbehind.1
  rw [hbody, List.append_assoc, words_append_of_blank (List.all_eq_true.1 (gap 0).blank)] at hwords
  have hdrop : ((gap 0).chars ++ (body ++ (front ++ back ++ rest))).dropWhile isBlank =
      body ++ (front ++ back ++ rest) := by
    refine (Lexeme.takeWhile_append_of_head (gap 0).blank ?_).2
    rw [List.head?_append_of_ne_nil _ hne]
    exact htrimmed.head
  -- the white space that is read behind the last word adds no word
  refine ⟨body ++ front, back, hbehind.2, ?_, by rw [unwrap, hwords, joined]⟩
  rw [hbody, List.append_assoc, hdrop, readText_append huntagged htrimmed.last, hread]

theorem readTag_append {name tail text after : List Char} (hname : IsTagName name)
    (htail : ∃ b, tail.head? = some b ∧ isBlank b)
    (hread : readText (tail.dropWhile isBlank) = (text, after)) :
    readTag (name ++ tail) =
      some (⟨String.ofList (lower name), String.ofList (unwrap text)⟩, after) := by
  obtain ⟨b, hb, hblank⟩ := htail
  obtain ⟨c, cs, hc, -⟩ := hname.exists_head
  have hgo : ¬ (name = [] ∨ ¬ (tail.head?.map isBlank).getD false) := by simp [hc, hb, hblank]
  rw [readTag, readName_append hname (by simpa [hb] using hblank)]
  dsimp only
  rw [if_neg hgo, hread]

/-- A tag is read as it is written. -/
theorem exists_readTag_line (l : Line) {rest : List Char} (hrest : ∀ c ∈ rest.head?, c = '@') :
    ∃ back, (∀ b ∈ back, isBlank b) ∧
      readTag (l.note.name.toList ++ (spread l.gap l.note.words ++ l.behind) ++ rest) =
        some (l.note.tag, back ++ rest) := by
  obtain ⟨text, back, hback, hread, htext⟩ :=
    exists_readText_spread l.gap l.note.words_ne_nil l.blank hrest
  obtain ⟨hname, hlower⟩ := l.note.isTagName
  refine ⟨back, hback, ?_⟩
  rw [List.append_assoc, List.append_assoc,
    readTag_append hname (exists_head_spread l.gap l.note.words_ne_nil _) hread, hlower, htext,
    String.ofList_toList]
  rfl

theorem tags_of_readTag {rest after : List Char} {tag : Tag}
    (h : readTag rest = some (tag, after)) : tags ('@' :: rest) = tag :: tags after := by
  rw [tags, if_pos rfl]
  split
  · rename_i heq
    rw [h] at heq
    cases heq
    rfl
  · rename_i heq
    rw [h] at heq
    cases heq

theorem tags_append_of_blank {bs : List Char} (hbs : ∀ b ∈ bs, isBlank b) (cs : List Char) :
    tags (bs ++ cs) = tags cs := by
  induction bs with
  | nil => rfl
  | cons b bs ih =>
    obtain ⟨hb, hbs⟩ := List.forall_mem_cons.1 hbs
    have hat : b ≠ '@' := by
      rintro rfl
      revert hb
      decide
    rw [List.cons_append, tags, if_neg hat, ih hbs]

/-- The tags of a comment are those that are written in it. -/
theorem tags_written (lines : List Line) : tags (written lines) = lines.map (·.note.tag) := by
  induction lines with
  | nil => rw [written, List.flatMap_nil, tags, List.map_nil]
  | cons l lines ih =>
    have hhead : ∀ c ∈ (written lines).head?, c = '@' := by
      cases lines with
      | nil => simp [written]
      | cons l' lines =>
        intro c hc
        cases hc
        rfl
    obtain ⟨back, hback, hread⟩ := exists_readTag_line l hhead
    calc tags (written (l :: lines))
        = l.note.tag :: tags (back ++ written lines) := tags_of_readTag hread
      _ = l.note.tag :: lines.map (·.note.tag) := by rw [tags_append_of_blank hback, ih]

/-- Nothing stands in front of the first tag. -/
theorem leading_written (lines : List Line) : leading (written lines) = [] := by
  cases lines with
  | nil => rfl
  | cons l lines =>
    obtain ⟨c, cs, hname, hc⟩ := l.note.isTagName.1.exists_head
    have hwritten : ∃ rest, written (l :: lines) = '@' :: c :: rest := by
      rw [written, List.flatMap_cons, Line.chars, hname]
      exact ⟨_, rfl⟩
    obtain ⟨rest, hwritten⟩ := hwritten
    rw [hwritten, leading, if_pos ⟨rfl, by simpa using hc⟩]

/-! ## Sorting the tags -/

theorem put_of_not_mem {key value : String} {es : Entries} (h : key ∉ es.map Prod.fst) :
    es.put key value = es ++ [(key, value)] := by
  induction es with
  | nil => rfl
  | cons e es ih =>
    obtain ⟨hne, hrest⟩ := not_or.1 (mt List.mem_cons.2 h)
    rw [Entries.put, if_neg (Ne.symm hne), ih hrest]
    rfl

theorem ofList_ne_empty {cs : List Char} (h : cs ≠ []) : String.ofList cs ≠ "" := fun heq =>
  h (by simpa using congrArg String.toList heq)

theorem joined_ne_nil {ws : List Word} (hne : ws ≠ []) : joined ws ≠ [] := by
  obtain ⟨w, ws, rfl⟩ := List.exists_cons_of_ne_nil hne
  cases ws with
  | nil => simpa [joined] using w.nonempty
  | cons w' ws => simp [joined, w.nonempty]

theorem joined_cons (w : Word) {ws : List Word} (hne : ws ≠ []) :
    joined (w :: ws) = w.chars ++ ' ' :: joined ws := by
  obtain ⟨w', ws, rfl⟩ := List.exists_cons_of_ne_nil hne
  rw [joined, List.map_cons, List.map_cons, List.intercalate_cons_cons, List.append_assoc]
  rfl

/-- A word in front of others is cut off. -/
theorem cutAt_append (w : Word) {rest : List Char} (hrest : ∀ c ∈ rest.head?, c = ' ') :
    cutAt ' ' (w.chars ++ rest) = (w.chars, rest.drop 1) := by
  have hw : w.chars.all (· ≠ ' ') := by
    rw [List.all_eq_true]
    intro c hc
    have hblank := w.unbroken c hc
    rw [decide_eq_true_eq]
    rintro rfl
    revert hblank
    decide
  obtain ⟨htake, hdrop⟩ := Lexeme.takeWhile_append_of_head hw
    (fun c hc => by simp [hrest c hc] : ∀ c ∈ rest.head?, decide (c ≠ ' ') = false)
  rw [cutAt, htake, hdrop]

theorem add_notice (doc : Natspec) (text : String) :
    add doc ⟨"notice", text⟩ = { doc with notice := some text } := rfl

theorem add_dev (doc : Natspec) (text : String) :
    add doc ⟨"dev", text⟩ = { doc with dev := some text } := rfl

theorem add_param (doc : Natspec) (name : Word) (text : Phrase) :
    add doc ⟨"param", String.ofList (joined (name :: text.words))⟩ =
      { doc with params := doc.params.put name.text text.text } := by
  rw [joined_cons name text.nonempty, add, String.toList_ofList, cutAt_append name (by simp)]
  exact if_neg (ofList_ne_empty (joined_ne_nil text.nonempty))

theorem add_returned (doc : Natspec) {tag : String} (htag : tag = "return" ∨ tag = "returns")
    (name : Word) (text : Phrase) :
    add doc ⟨tag, String.ofList (joined (name :: text.words))⟩ =
      { doc with returns := doc.returns.put name.text text.text } := by
  rw [joined_cons name text.nonempty, add, String.toList_ofList, cutAt_append name (by simp)]
  have hne := ofList_ne_empty (joined_ne_nil text.nonempty)
  obtain rfl | rfl := htag <;> exact if_neg hne

theorem add_result (doc : Natspec) {tag : String} (htag : tag = "return" ∨ tag = "returns")
    (w : Word) : add doc ⟨tag, String.ofList (joined [w])⟩ =
      { doc with returns := doc.returns.put "" w.text } := by
  have hjoined : joined [w] = w.chars ++ [] := by simp [joined]
  rw [hjoined, add, String.toList_ofList, cutAt_append w (by simp), List.append_nil]
  obtain rfl | rfl := htag <;> exact if_pos rfl

theorem add_custom (doc : Natspec) {tag : String} (htag : tag ∉ reserved) (text : String) :
    add doc ⟨tag, text⟩ = { doc with custom := doc.custom.put tag text } := by
  simp only [reserved, List.mem_cons, List.not_mem_nil, or_false, not_or] at htag
  obtain ⟨hnotice, hdev, hparam, hreturn, hreturns⟩ := htag
  rw [add]
  split
  split
  · contradiction
  · contradiction
  · contradiction
  · contradiction
  · contradiction
  · rfl

namespace Note

theorem not_mem_of_nodup_concat {keys : List String} {key : String} (h : (keys ++ [key]).Nodup) :
    key ∉ keys := fun hmem =>
  (List.nodup_append.1 h).2.2 key hmem key (List.mem_singleton_self key) rfl

/-- One more tag adds what it says to each part. -/
theorem record_concat (notes : List Note) (n : Note) : record (notes ++ [n]) =
    { notice := (record notes).notice.or n.notice?
      dev := (record notes).dev.or n.dev?
      params := (record notes).params ++ n.param?.toList
      returns := (record notes).returns ++ n.return?.toList
      custom := (record notes).custom ++ n.custom?.toList } := by
  have hfilter {α : Type} (f : Note → Option α) : [n].filterMap f = (f n).toList := by
    cases h : f n <;> simp [h]
  simp only [record, List.filterMap_append, List.head?_append, hfilter]
  cases n.notice? <;> cases n.dev? <;> rfl

/-- A tag that says something new is added at the end. -/
theorem add_record {notes : List Note} {n : Note} (h : Consistent (notes ++ [n])) :
    add (record notes) n.tag = record (notes ++ [n]) := by
  have htag (plural : Bool) : (if plural then "returns" else "return") = "return" ∨
      (if plural then "returns" else "return") = "returns" := by cases plural <;> simp
  -- each tag changes one part only
  rw [record_concat]
  cases n with
  | notice text =>
    have hnone : (record notes).notice = none := by simpa [record] using h.notice
    calc add (record notes) (notice text).tag
        = { record notes with notice := some text.text } := add_notice _ _
      _ = _ := by simp [hnone]
  | dev text =>
    have hnone : (record notes).dev = none := by simpa [record] using h.dev
    calc add (record notes) (dev text).tag
        = { record notes with dev := some text.text } := add_dev _ _
      _ = _ := by simp [hnone]
  | param name text =>
    have hfresh : name.text ∉ (record notes).params.map Prod.fst :=
      not_mem_of_nodup_concat (by simpa [record] using h.params)
    calc add (record notes) (param name text).tag
        = { record notes with params := (record notes).params.put name.text text.text } :=
          add_param _ _ _
      _ = _ := by simp [put_of_not_mem hfresh]
  | returned plural name text =>
    have hfresh : name.text ∉ (record notes).returns.map Prod.fst :=
      not_mem_of_nodup_concat (by simpa [record] using h.returns)
    calc add (record notes) (returned plural name text).tag
        = { record notes with returns := (record notes).returns.put name.text text.text } :=
          add_returned _ (htag plural) _ _
      _ = _ := by simp [put_of_not_mem hfresh]
  | result plural word =>
    have hfresh : "" ∉ (record notes).returns.map Prod.fst :=
      not_mem_of_nodup_concat (by simpa [record] using h.returns)
    calc add (record notes) (result plural word).tag
        = { record notes with returns := (record notes).returns.put "" word.text } :=
          add_result _ (htag plural) _
      _ = _ := by simp [put_of_not_mem hfresh]
  | custom name text =>
    have hfresh : name.text ∉ (record notes).custom.map Prod.fst :=
      not_mem_of_nodup_concat (by simpa [record] using h.customs)
    calc add (record notes) (custom name text).tag
        = { record notes with custom := (record notes).custom.put name.text text.text } :=
          add_custom _ name.isFree _
      _ = _ := by simp [put_of_not_mem hfresh]

theorem Consistent.of_sublist {notes notes' : List Note} (h : Consistent notes')
    (hsub : notes.Sublist notes') : Consistent notes where
  notice := (hsub.filterMap _).length_le.trans h.notice
  dev := (hsub.filterMap _).length_le.trans h.dev
  params := h.params.sublist ((hsub.filterMap _).map _)
  returns := h.returns.sublist ((hsub.filterMap _).map _)
  customs := h.customs.sublist ((hsub.filterMap _).map _)

/-- Tags that say different things say all of it together. -/
theorem foldl_add_tag {notes : List Note} (h : Consistent notes) :
    (notes.map tag).foldl add empty = record notes := by
  -- from the first tag to the last, as entries are added at the end
  induction notes using List.reverseRecOn with
  | nil => rfl
  | append_singleton notes n ih =>
    have hnotes := h.of_sublist (List.sublist_append_left notes [n])
    rw [List.map_append, List.foldl_append, ih hnotes]
    exact add_record h

/-- Each tag says something. -/
theorem isVoid_record {notes : List Note} (hne : notes ≠ []) : (record notes).isVoid = false := by
  obtain ⟨n, notes, rfl⟩ := List.exists_cons_of_ne_nil hne
  have htext (text : Phrase) : text.text ≠ "" := ofList_ne_empty (joined_ne_nil text.nonempty)
  cases n with
  | notice text => simp [isVoid, record, htext]
  | dev text => simp [isVoid, record, htext]
  | param name text | returned _ name text | result _ word | custom name text =>
    simp [isVoid, record]

end Note

/-- The tags that are written in a comment are read back. -/
theorem parse_written {lines : List Line} (hne : lines ≠ [])
    (h : Note.Consistent (lines.map (·.note))) :
    parse (String.ofList (written lines)) = some (Note.record (lines.map (·.note))) := by
  have htrim : trim (written lines) ≠ [] := by
    obtain ⟨l, lines, rfl⟩ := List.exists_cons_of_ne_nil hne
    intro hnil
    have hat := trim_eq_nil_iff.1 hnil '@' (by simp [written, Line.chars])
    revert hat
    decide
  have htags : (tags (written lines)).foldl add empty = Note.record (lines.map (·.note)) := by
    rw [tags_written, ← Note.foldl_add_tag h, List.map_map]
    rfl
  have hvoid : (Note.record (lines.map (·.note))).isVoid = false :=
    Note.isVoid_record (by simpa using hne)
  rw [parse, String.toList_ofList, if_neg htrim, leading_written]
  change (if ((tags (written lines)).foldl add empty).isVoid then none else
    some ((tags (written lines)).foldl add empty)) = _
  rw [htags, hvoid]
  rfl

/-- The value without a name comes first, a text goes on on a line that is indented, one tag stands
behind another on the same line, and the notice is last. -/
theorem parse_written_wrapped : ∃ lines : List Line, lines ≠ [] ∧
    Note.Consistent (lines.map (·.note)) ∧
    String.ofList (written lines) =
      "@return ok\n@custom:x a\n \tb ok\n@param x\na @returns a b\n\n@notice b" ∧
    parse "@return ok\n@custom:x a\n \tb ok\n@param x\na @returns a b\n\n@notice b" =
      some ⟨some "b", none, [("x", "a")], [("", "ok"), ("a", "b")], [("custom:x", "a b ok")]⟩ := by
  let a : Word := ⟨['a'], by decide, by simp; decide, by decide⟩
  let b : Word := ⟨['b'], by decide, by simp; decide, by decide⟩
  let x : Word := ⟨['x'], by decide, by simp; decide, by decide⟩
  let ok : Word := ⟨['o', 'k'], by decide, by simp; decide, by decide⟩
  let custom : CustomName := ⟨"custom:x",
    .pair (w := ['c', 'u', 's', 't', 'o', 'm']) (v := ['x']) (by decide) (by simp; decide)
      (by decide) (by simp; decide), by decide +kernel, by decide⟩
  let further : Gap := ⟨['\n', ' ', '\t'], by decide, by decide⟩
  let next : Gap := ⟨['\n'], by decide, by decide⟩
  let lines : List Line := [
    ⟨.result false ok, fun _ => .space, ['\n'], by simp; decide⟩,
    ⟨.custom custom ⟨[a, b, ok], List.cons_ne_nil _ _⟩,
      fun i => if i = 1 then further else .space, ['\n'], by simp; decide⟩,
    ⟨.param x ⟨[a], List.cons_ne_nil _ _⟩, fun i => if i = 1 then next else .space, [' '],
      by simp; decide⟩,
    ⟨.returned true a ⟨[b], List.cons_ne_nil _ _⟩, fun _ => .space, ['\n', '\n'], by simp; decide⟩,
    ⟨.notice ⟨[b], List.cons_ne_nil _ _⟩, fun _ => .space, [], by simp⟩]
  have hne : lines ≠ [] := List.cons_ne_nil _ _
  have h : Note.Consistent (lines.map (·.note)) :=
    ⟨by decide +kernel, by decide +kernel, by decide +kernel, by decide +kernel, by decide +kernel⟩
  have hwritten : String.ofList (written lines) =
      "@return ok\n@custom:x a\n \tb ok\n@param x\na @returns a b\n\n@notice b" := by decide +kernel
  exact ⟨lines, hne, h, hwritten, hwritten ▸ parse_written hne h⟩

end AbiIndex.Source.Natspec
