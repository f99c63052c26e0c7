import Mathlib.Data.List.Infix
import Mathlib.Logic.Function.Basic
import ProofStepper.Heap.ImageFile

/-!
# Images read back

The escaped form of a text has none of the characters that tags are made of, and the text
can be told from it. So the tags of an image are those that it was drawn with, whatever
stands in its chunks, and an image can be read: each of its frames is followed by the text
of one chunk. What is read is the list of chunks, in rows that lie one below the other
within the height that the image declares.
-/
namespace ProofStepper.Heap

/-- The characters that markup is made of, each with the entity that stands for it. -/
def entities : List (Char × List Char) :=
  [('&', "&amp;".toList), ('<', "&lt;".toList), ('>', "&gt;".toList), ('"', "&quot;".toList)]

/-- A text with each occurrence of a character replaced. -/
def replaced (s : List Char) (e : Char × List Char) : List Char :=
  s.flatMap fun c => if c = e.1 then e.2 else [c]

/-- A text with its entities replaced by the characters that they stand for. -/
def unescaped : List Char → List Char
  | '&' :: 'a' :: 'm' :: 'p' :: ';' :: rest => '&' :: unescaped rest
  | '&' :: 'l' :: 't' :: ';' :: rest => '<' :: unescaped rest
  | '&' :: 'g' :: 't' :: ';' :: rest => '>' :: unescaped rest
  | '&' :: 'q' :: 'u' :: 'o' :: 't' :: ';' :: rest => '"' :: unescaped rest
  | c :: rest => c :: unescaped rest
  | [] => []

/-- What is known of the escaped form of a text. -/
structure Escapes (text escaped : List Char) : Prop where
  /-- It comes about by four replacements, the ampersands first. -/
  replacements : escaped = entities.foldl replaced text
  plain : ∀ c ∈ escaped, c ≠ '<' ∧ c ≠ '>' ∧ c ≠ '"'
  /-- Each ampersand starts an entity. -/
  ampersands : ∀ before after, escaped = before ++ '&' :: after →
    ∃ e ∈ entities, e.2 <+: '&' :: after
  restores : unescaped escaped = text

/-- A character is escaped by its entity if it has one, and else it stays. -/
theorem escapedMarkup_cases (c : Char) :
    (c, escapedMarkup c) ∈ entities ∨
      (escapedMarkup c = [c] ∧ c ≠ '&' ∧ c ≠ '<' ∧ c ≠ '>' ∧ c ≠ '"') := by
  unfold escapedMarkup
  split
  · rename_i h
    subst h
    exact .inl (by decide)
  split
  · rename_i h
    subst h
    exact .inl (by decide)
  split
  · rename_i h
    subst h
    exact .inl (by decide)
  split
  · rename_i h
    subst h
    exact .inl (by decide)
  · exact .inr ⟨rfl, ‹_›, ‹_›, ‹_›, ‹_›⟩

theorem foldl_replaced_append (es : List (Char × List Char)) (s t : List Char) :
    es.foldl replaced (s ++ t) = es.foldl replaced s ++ es.foldl replaced t := by
  induction es generalizing s t with
  | nil => rfl
  | cons e es ih =>
    have hstep : replaced (s ++ t) e = replaced s e ++ replaced t e := List.flatMap_append
    rw [List.foldl_cons, hstep, ih]
    rfl

theorem foldl_replaced_single (c : Char) : entities.foldl replaced [c] = escapedMarkup c := by
  rcases escapedMarkup_cases c with h | ⟨h, hamp, hlt, hgt, hquot⟩
  · simp only [entities, List.mem_cons, Prod.mk.injEq, List.not_mem_nil, or_false] at h
    rcases h with ⟨rfl, -⟩ | ⟨rfl, -⟩ | ⟨rfl, -⟩ | ⟨rfl, -⟩ <;> decide
  · simp [h, entities, replaced, hamp, hlt, hgt, hquot]

theorem flatMap_escapedMarkup_eq (s : List Char) :
    s.flatMap escapedMarkup = entities.foldl replaced s := by
  induction s with
  | nil => rfl
  | cons c rest ih =>
    rw [List.flatMap_cons, ih, ← foldl_replaced_single, ← foldl_replaced_append]
    rfl

theorem plain_escapedMarkup {c d : Char} (h : d ∈ escapedMarkup c) :
    d ≠ '<' ∧ d ≠ '>' ∧ d ≠ '"' := by
  have hentities : ∀ e ∈ entities, ∀ d ∈ e.2, d ≠ '<' ∧ d ≠ '>' ∧ d ≠ '"' := by simp [entities]
  rcases escapedMarkup_cases c with hc | ⟨hc, -, hplain⟩
  · exact hentities _ hc d h
  · rw [hc, List.mem_singleton] at h
    exact h ▸ hplain

/-- In the escaped form of a character an ampersand can only be the first character, and
then it starts the entity. -/
theorem entity_of_escapedMarkup {c : Char} {before after : List Char}
    (h : escapedMarkup c = before ++ '&' :: after) : ∃ e ∈ entities, e.2 = '&' :: after := by
  have hentities : ∀ e ∈ entities, '&' ∉ e.2.tail := by decide
  rcases escapedMarkup_cases c with hc | ⟨hc, hamp, -⟩
  · cases before with
    | nil => exact ⟨_, hc, h⟩
    | cons first before =>
      refine absurd ?_ (hentities _ hc)
      simp [h]
  · rw [hc] at h
    have hmem : '&' ∈ [c] := h ▸ List.mem_append_right _ List.mem_cons_self
    exact absurd (List.mem_singleton.mp hmem).symm hamp

theorem entity_of_flatMap {s before after : List Char}
    (h : s.flatMap escapedMarkup = before ++ '&' :: after) :
    ∃ e ∈ entities, e.2 <+: '&' :: after := by
  induction s generalizing before with
  | nil => cases before <;> cases h
  | cons c rest ih =>
    rw [List.flatMap_cons] at h
    rcases List.append_eq_append_iff.mp h with ⟨more, -, hrest⟩ | ⟨more, hc, hafter⟩
    · exact ih hrest
    · cases more with
      | nil =>
        have hrest : rest.flatMap escapedMarkup = [] ++ '&' :: after := hafter.symm
        exact ih hrest
      | cons first more =>
        obtain ⟨rfl, rfl⟩ := List.cons.inj hafter
        obtain ⟨e, he, htext⟩ := entity_of_escapedMarkup hc
        exact ⟨e, he, htext ▸ List.prefix_append ('&' :: more) _⟩

theorem unescaped_escapedMarkup (c : Char) (rest : List Char) :
    unescaped (escapedMarkup c ++ rest) = c :: unescaped rest := by
  rcases escapedMarkup_cases c with h | ⟨h, hamp, -⟩
  · simp only [entities, List.mem_cons, Prod.mk.injEq, List.not_mem_nil, or_false] at h
    rcases h with ⟨rfl, -⟩ | ⟨rfl, -⟩ | ⟨rfl, -⟩ | ⟨rfl, -⟩ <;> rfl
  · rw [h, List.singleton_append, unescaped]
    all_goals
      rintro _ rfl
      exact absurd rfl hamp

theorem unescaped_flatMap (s : List Char) : unescaped (s.flatMap escapedMarkup) = s := by
  induction s with
  | nil => rfl
  | cons c rest ih => rw [List.flatMap_cons, unescaped_escapedMarkup, ih]

theorem escapes (s : List Char) : Escapes s (s.flatMap escapedMarkup) where
  replacements := flatMap_escapedMarkup_eq s
  plain c hc := by
    obtain ⟨d, -, hd⟩ := List.mem_flatMap.mp hc
    exact plain_escapedMarkup hd
  ampersands _ _ := entity_of_flatMap
  restores := unescaped_flatMap s

namespace Image

/-- The numbers of a row of an image, and the chunk that stands in it. -/
structure Row where
  upper : Nat
  lower : Nat
  baseline : Nat
  chunk : String
deriving DecidableEq, Repr, Inhabited

/-- The number that a tag has as an attribute: that between the quotes behind its name. -/
def attribute? (name : List Char) (tag : List Char) : Option Nat :=
  go (tag.splitOn '"')
where
  go : List (List Char) → Option Nat
    | key :: value :: rest => if key = name then some (Nat.ofDigitChars 10 value 0) else go rest
    | _ => none

/-- A frame with the text that follows it, each from behind its `<` up to the next one. -/
def row? (frame label : List Char) : Option Row :=
  if "rect ".toList <+: frame ∧ "text ".toList <+: label then
    match attribute? " y=".toList frame, attribute? " height=".toList frame,
        attribute? " y=".toList label with
    | some y, some height, some baseline =>
      some ⟨y, y + height, baseline,
        String.ofList (unescaped ((label.dropWhile (· ≠ '>')).drop 1))⟩
    | _, _, _ => none
  else none

/-- The rows that stand in some tags, each with the text behind it. -/
def readTags : List (List Char) → List Row
  | frame :: label :: rest =>
    match row? frame label with
    | some row => row :: readTags rest
    | none => readTags (label :: rest)
  | _ => []

/-- The rows of an image from the top down. -/
def readRows (image : String) : List Row := readTags (image.toList.splitOn '<')

/-- The height that an image declares. -/
def readHeight? (image : String) : Option Nat := attribute? " height=".toList image.toList

/-- An attribute as it stands in a tag, with what follows it. -/
def quoted (key : String) (value rest : List Char) : List Char :=
  key.toList ++ '"' :: (value ++ '"' :: rest)

theorem attribute?_quoted {name value rest : List Char} {key : String}
    (hkey : '"' ∉ key.toList) (hvalue : '"' ∉ value) :
    attribute? name (quoted key value rest) =
      if key.toList = name then some (Nat.ofDigitChars 10 value 0) else attribute? name rest := by
  rw [attribute?, quoted, List.splitOn_append_cons_self_of_not_mem hkey,
    List.splitOn_append_cons_self_of_not_mem hvalue, attribute?.go]
  rfl

theorem quoted_append (key : String) (value rest more : List Char) :
    quoted key value rest ++ more = quoted key value (rest ++ more) := by
  simp [quoted]

theorem not_mem_toDigits {c : Char} (h : c.isDigit = false) (n : Nat) :
    c ∉ Nat.toDigits 10 n := by
  intro hc
  rw [Nat.isDigit_of_mem_toDigits (by decide) (by decide) hc] at h
  cases h

theorem not_mem_quoted {c : Char} {key : String} {value rest : List Char} (h : c ≠ '"')
    (hkey : c ∉ key.toList) (hvalue : c ∉ value) (hrest : c ∉ rest) :
    c ∉ quoted key value rest := by
  simp [quoted, h, hkey, hvalue, hrest]

def groupTag (row : Nat) : List Char :=
  "g id=\"chunk".toList ++ Nat.toDigits 10 row ++ "\">\n    ".toList

def frameTag (row : Nat) : List Char :=
  quoted "rect x=" "4".toList <|
  quoted " y=" (Nat.toDigits 10 (top row)) <|
  quoted " width=" (Nat.toDigits 10 (width - 8)) <|
  quoted " height=" (Nat.toDigits 10 (rowHeight - 4))
    " fill=\"none\" stroke=\"black\"/>\n    ".toList

def labelTag (row : Nat) (chunk : String) : List Char :=
  quoted "text x=" "10".toList <|
  quoted " y=" (Nat.toDigits 10 (top row + 16)) <|
  '>' :: (escapeMarkup chunk).toList

theorem toString_string (s : String) : toString s = s := rfl

theorem toList_rowText (row : Nat) (chunk : String) :
    (rowText row chunk).toList = "  ".toList ++ '<' :: (groupTag row ++ '<' :: (frameTag row ++
      '<' :: (labelTag row chunk ++ '<' :: ("/text>\n  ".toList ++ '<' :: "/g>\n".toList)))) := by
  unfold rowText rowStart rowEnd groupTag frameTag labelTag quoted
  simp only [String.toList_append, toString_string, Nat.toString_eq_repr, Nat.toList_repr,
    List.append_assoc, List.cons_append]
  rfl

/-- The row that is written for a chunk. -/
def placed (row : Nat) (chunk : String) : Row :=
  ⟨top row, top row + (rowHeight - 4), top row + 16, chunk⟩

theorem dropWhile_quoted {key : String} {value rest : List Char} (hkey : '>' ∉ key.toList)
    (hvalue : '>' ∉ value) :
    (quoted key value rest).dropWhile (· ≠ '>') = rest.dropWhile (· ≠ '>') := by
  have hsplit : quoted key value rest = (key.toList ++ '"' :: (value ++ ['"'])) ++ rest := by
    simp [quoted]
  rw [hsplit, List.dropWhile_append_of_pos]
  intro c hc
  rw [decide_eq_true_eq]
  rintro rfl
  simp [hkey, hvalue] at hc

theorem attribute?_y_frameTag (row : Nat) :
    attribute? " y=".toList (frameTag row) = some (top row) := by
  rw [frameTag, attribute?_quoted (by decide) (by decide), if_neg (by decide),
    attribute?_quoted (by decide) (not_mem_toDigits rfl _), if_pos rfl,
    Nat.ofDigitChars_ten_toDigits]

theorem attribute?_height_frameTag (row : Nat) :
    attribute? " height=".toList (frameTag row) = some (rowHeight - 4) := by
  rw [frameTag, attribute?_quoted (by decide) (by decide), if_neg (by decide),
    attribute?_quoted (by decide) (not_mem_toDigits rfl _), if_neg (by decide),
    attribute?_quoted (by decide) (not_mem_toDigits rfl _), if_neg (by decide),
    attribute?_quoted (by decide) (not_mem_toDigits rfl _), if_pos rfl,
    Nat.ofDigitChars_ten_toDigits]

theorem attribute?_y_labelTag (row : Nat) (chunk : String) :
    attribute? " y=".toList (labelTag row chunk) = some (top row + 16) := by
  rw [labelTag, attribute?_quoted (by decide) (by decide), if_neg (by decide),
    attribute?_quoted (by decide) (not_mem_toDigits rfl _), if_pos rfl,
    Nat.ofDigitChars_ten_toDigits]

theorem dropWhile_labelTag (row : Nat) (chunk : String) :
    (labelTag row chunk).dropWhile (· ≠ '>') = '>' :: (escapeMarkup chunk).toList := by
  rw [labelTag, dropWhile_quoted (by decide) (by decide),
    dropWhile_quoted (by decide) (not_mem_toDigits rfl _)]
  exact List.dropWhile_cons_of_neg (by decide)

theorem row?_placed (row : Nat) (chunk : String) :
    row? (frameTag row) (labelTag row chunk) = some (placed row chunk) := by
  have hframe : "rect ".toList <+: frameTag row :=
    List.IsPrefix.trans (by decide : "rect ".toList <+: "rect x=".toList) (List.prefix_append _ _)
  have hlabel : "text ".toList <+: labelTag row chunk :=
    List.IsPrefix.trans (by decide : "text ".toList <+: "text x=".toList) (List.prefix_append _ _)
  have hchunk : unescaped (escapeMarkup chunk).toList = chunk.toList := by
    rw [escapeMarkup, String.toList_ofList, unescaped_flatMap]
  rw [row?, if_pos ⟨hframe, hlabel⟩, attribute?_y_frameTag, attribute?_height_frameTag,
    attribute?_y_labelTag, dropWhile_labelTag, List.drop_one, List.tail_cons, hchunk,
    String.ofList_toList]
  rfl

/-- A tag that begins like no frame. -/
def NoFrame (tag : List Char) : Prop := ∃ c ∈ tag.head?, c ≠ 'r'

theorem NoFrame.append {tag : List Char} (h : NoFrame tag) (more : List Char) :
    NoFrame (tag ++ more) := by
  obtain ⟨c, hc, hne⟩ := h
  cases tag with
  | nil => cases hc
  | cons => exact ⟨c, hc, hne⟩

theorem NoFrame.readTags_cons {tag : List Char} (h : NoFrame tag) (tags : List (List Char)) :
    readTags (tag :: tags) = readTags tags := by
  obtain ⟨c, hc, hne⟩ := h
  have hrect : ¬ "rect ".toList <+: tag := by
    rintro ⟨more, rfl⟩
    exact hne (Option.some.inj hc).symm
  cases tags with
  | nil => rfl
  | cons label rest =>
    have hnone : row? tag label = none := if_neg fun hrow => hrect hrow.1
    rw [readTags, hnone]

theorem not_mem_escapeMarkup (chunk : String) : '<' ∉ (escapeMarkup chunk).toList := by
  intro h
  rw [escapeMarkup, String.toList_ofList] at h
  exact ((escapes chunk.toList).plain _ h).1 rfl

theorem not_mem_groupTag (row : Nat) : '<' ∉ groupTag row := by
  unfold groupTag
  rw [List.mem_append, List.mem_append, not_or, not_or]
  exact ⟨⟨by decide, not_mem_toDigits rfl _⟩, by decide⟩

theorem not_mem_frameTag (row : Nat) : '<' ∉ frameTag row := by
  unfold frameTag
  apply not_mem_quoted (by decide) (by decide) (by decide)
  apply not_mem_quoted (by decide) (by decide) (not_mem_toDigits rfl _)
  apply not_mem_quoted (by decide) (by decide) (not_mem_toDigits rfl _)
  exact not_mem_quoted (by decide) (by decide) (not_mem_toDigits rfl _) (by decide)

theorem not_mem_labelTag (row : Nat) (chunk : String) : '<' ∉ labelTag row chunk := by
  unfold labelTag
  apply not_mem_quoted (by decide) (by decide) (by decide)
  apply not_mem_quoted (by decide) (by decide) (not_mem_toDigits rfl _)
  exact List.not_mem_cons_of_ne_of_not_mem (by decide) (not_mem_escapeMarkup chunk)

/-- Whatever the chunks, the rows that are read are those that were written. -/
theorem readTags_rows {tag : List Char} (htag : NoFrame tag) (hplain : '<' ∉ tag) (row : Nat)
    (chunks : List String) :
    readTags ((tag ++ (rows row chunks ++ closing).toList).splitOn '<') =
      (chunks.zipIdx row).map fun e => placed e.2 e.1 := by
  induction chunks generalizing tag row with
  | nil =>
    have hclosing : (rows row [] ++ closing).toList = '<' :: "/svg>\n".toList := by
      rw [rows, String.empty_append]
      rfl
    rw [hclosing, List.splitOn_append_cons_self_of_not_mem hplain,
      List.splitOn_eq_singleton (by decide)]
    exact htag.readTags_cons _
  | cons chunk rest ih =>
    have htext : tag ++ (rows row (chunk :: rest) ++ closing).toList =
        (tag ++ "  ".toList) ++ '<' :: (groupTag row ++ '<' :: (frameTag row ++
          '<' :: (labelTag row chunk ++ '<' :: ("/text>\n  ".toList ++
            '<' :: ("/g>\n".toList ++ (rows (row + 1) rest ++ closing).toList))))) := by
      rw [rows, String.toList_append, String.toList_append, toList_rowText, String.toList_append]
      simp only [List.append_assoc, List.cons_append]
    have hopen : '<' ∉ tag ++ "  ".toList := by
      rw [List.mem_append, not_or]
      exact ⟨hplain, by decide⟩
    rw [htext, List.splitOn_append_cons_self_of_not_mem hopen,
      List.splitOn_append_cons_self_of_not_mem (not_mem_groupTag row),
      List.splitOn_append_cons_self_of_not_mem (not_mem_frameTag row),
      List.splitOn_append_cons_self_of_not_mem (not_mem_labelTag row chunk),
      List.splitOn_append_cons_self_of_not_mem (by decide)]
    have hgroup : NoFrame (groupTag row) := ⟨'g', rfl, by decide⟩
    have htextEnd : NoFrame "/text>\n  ".toList := ⟨'/', rfl, by decide⟩
    have hgroupEnd : NoFrame "/g>\n".toList := ⟨'/', rfl, by decide⟩
    rw [(htag.append _).readTags_cons, hgroup.readTags_cons, readTags, row?_placed,
      List.zipIdx_cons, List.map_cons, htextEnd.readTags_cons, ih hgroupEnd (by decide)]

/-- An image without chunks has a text but no frame. -/
theorem readTags_emptyRow {tag : List Char} (htag : NoFrame tag) (hplain : '<' ∉ tag) :
    readTags ((tag ++ (emptyRow ++ closing).toList).splitOn '<') = [] := by
  have htext : tag ++ (emptyRow ++ closing).toList =
      (tag ++ "  ".toList) ++ '<' :: ("text x=\"10\" y=\"20\">empty heap".toList ++
        '<' :: ("/text>\n".toList ++ '<' :: "/svg>\n".toList)) := by
    rw [List.append_assoc]
    rfl
  have hopen : '<' ∉ tag ++ "  ".toList := by
    rw [List.mem_append, not_or]
    exact ⟨hplain, by decide⟩
  rw [htext, List.splitOn_append_cons_self_of_not_mem hopen,
    List.splitOn_append_cons_self_of_not_mem (by decide),
    List.splitOn_append_cons_self_of_not_mem (by decide),
    List.splitOn_eq_singleton (by decide), (htag.append _).readTags_cons]
  rfl

def imageTag (chunks : Nat) : List Char :=
  quoted "svg xmlns=" "http://www.w3.org/2000/svg".toList <|
  quoted " width=" (Nat.toDigits 10 width) <|
  quoted " height=" (Nat.toDigits 10 (height chunks))
    " font-family=\"monospace\" font-size=\"12\">\n".toList

theorem toList_opening (chunks : Nat) : (opening chunks).toList = '<' :: imageTag chunks := by
  unfold opening imageTag quoted
  simp only [String.toList_append, toString_string, Nat.toString_eq_repr, Nat.toList_repr,
    List.append_assoc]
  rfl

theorem not_mem_imageTag (chunks : Nat) : '<' ∉ imageTag chunks := by
  unfold imageTag
  apply not_mem_quoted (by decide) (by decide) (by decide)
  apply not_mem_quoted (by decide) (by decide) (not_mem_toDigits rfl _)
  exact not_mem_quoted (by decide) (by decide) (not_mem_toDigits rfl _) (by decide)

theorem toList_ofChunks (chunks : List String) : (ofChunks chunks).toList =
    '<' :: (imageTag chunks.length ++
      ((if chunks.isEmpty then emptyRow else rows 0 chunks) ++ closing).toList) := by
  rw [ofChunks, String.append_assoc, String.toList_append, toList_opening, List.cons_append]

/-- What is read from an image is what was written, a row for each chunk. -/
theorem readRows_ofChunks (chunks : List String) :
    readRows (ofChunks chunks) = chunks.zipIdx.map fun e => placed e.2 e.1 := by
  have hfirst : ∀ tags, readTags ([] :: tags) = readTags tags := by
    rintro (_ | ⟨label, rest⟩) <;> rfl
  have himage : NoFrame (imageTag chunks.length) := ⟨'s', rfl, by decide⟩
  rw [readRows, toList_ofChunks, ← List.nil_append ('<' :: _),
    List.splitOn_append_cons_self_of_not_mem List.not_mem_nil, hfirst]
  cases chunks with
  | nil => exact readTags_emptyRow himage (not_mem_imageTag _)
  | cons chunk rest => exact readTags_rows himage (not_mem_imageTag _) 0 (chunk :: rest)

theorem readHeight?_ofChunks (chunks : List String) :
    readHeight? (ofChunks chunks) = some (height chunks.length) := by
  have hopen : ∀ value rest, '<' :: quoted "svg xmlns=" value rest =
    quoted "<svg xmlns=" value rest := fun _ _ => rfl
  rw [readHeight?, toList_ofChunks, imageTag, quoted_append, quoted_append, quoted_append, hopen,
    attribute?_quoted (by decide) (by decide), if_neg (by decide),
    attribute?_quoted (by decide) (not_mem_toDigits rfl _), if_neg (by decide),
    attribute?_quoted (by decide) (not_mem_toDigits rfl _), if_pos rfl,
    Nat.ofDigitChars_ten_toDigits]

/-- An image from which the chunks can be read, in rows that lie one below the other within
the height of the image. -/
structure Shows (image : String) (chunks : List String) : Prop where
  chunks : (readRows image).map (·.chunk) = chunks
  apart : (readRows image).Pairwise fun a b => a.lower < b.upper
  inside : ∃ height, readHeight? image = some height ∧ ∀ row ∈ readRows image,
    row.upper < row.baseline ∧ row.baseline < row.lower ∧ row.lower ≤ height

theorem ofChunks_shows (chunks : List String) : Shows (ofChunks chunks) chunks := by
  refine ⟨?_, ?_, height chunks.length, readHeight?_ofChunks chunks, ?_⟩
  · rw [readRows_ofChunks, List.map_map]
    exact List.zipIdx_map_fst 0 chunks
  · rw [readRows_ofChunks, List.pairwise_map, List.pairwise_iff_getElem]
    intro i j hi hj hij
    simp only [List.getElem_zipIdx, placed, top, rowHeight]
    omega
  · rw [readRows_ofChunks]
    intro row hrow
    obtain ⟨⟨chunk, i⟩, hmem, rfl⟩ := List.mem_map.mp hrow
    obtain ⟨hi, -⟩ := List.mem_zipIdx' hmem
    simp only [placed, top, height, rowHeight]
    omega

theorem ofChunks_injective : Function.Injective ofChunks := by
  intro chunks others h
  rw [← (ofChunks_shows chunks).chunks, ← (ofChunks_shows others).chunks, h]

/-- No list of chunks, whatever their texts, is lost or mixed up in its image. -/
theorem images_lose_nothing :
    (∀ chunks, Shows (ofChunks chunks) chunks) ∧ Function.Injective ofChunks ∧
    ∀ chunk : String, Escapes chunk.toList (escapeMarkup chunk).toList := by
  refine ⟨ofChunks_shows, ofChunks_injective, fun chunk => ?_⟩
  rw [escapeMarkup, String.toList_ofList]
  exact escapes chunk.toList

end Image

end ProofStepper.Heap
