/-
  What helptest shows of the help texts.

  A line is shown when its carriage return comes in, out of the buffer in which it was
  built.  What is behind the last carriage return of a text is not shown; it stays in the
  buffer, and what of it the next line does not cover is shown with that line
  (`displayFrom_text`).  The lines of the texts that the server has are short enough for
  the buffer (`help_displayed`).
-/
import CpcLink.Proof.HelpTexts
import CpcLink.Proof.Reader

namespace CpcLink

/-! ## Lines -/

/-- The lines of a text, and what is behind its last carriage return. -/
def splitLines : List BYTE → List (List BYTE) × List BYTE
  | [] => ([], [])
  | b :: text =>
    let r := splitLines text
    if b = 13 then ([] :: r.1, r.2)
    else
      match r.1 with
      | [] => ([], b :: r.2)
      | line :: lines => ((b :: line) :: lines, r.2)

def joinLines (lines : List (List BYTE)) (tail : List BYTE) : List BYTE :=
  lines.flatMap (fun line => line ++ [13]) ++ tail

theorem joinLines_split (text : List BYTE) :
    joinLines (splitLines text).1 (splitLines text).2 = text := by
  induction text with
  | nil => rfl
  | cons b text ih =>
    rw [splitLines]
    split
    next h => rw [h, joinLines, List.flatMap_cons, List.append_assoc, ← joinLines, ih]; rfl
    next =>
      cases hlines : (splitLines text).1 with
      | nil =>
        rw [hlines] at ih
        exact congrArg (b :: ·) ih
      | cons line lines =>
        rw [hlines] at ih
        exact congrArg (b :: ·) ih

theorem splitLines_noReturn (text : List BYTE) :
    (∀ line ∈ (splitLines text).1, (13 : BYTE) ∉ line) ∧ (13 : BYTE) ∉ (splitLines text).2 := by
  induction text with
  | nil => exact ⟨fun _ h => (List.not_mem_nil h).elim, List.not_mem_nil⟩
  | cons b text ih =>
    rw [splitLines]
    split
    next => exact ⟨List.forall_mem_cons.2 ⟨List.not_mem_nil, ih.1⟩, ih.2⟩
    next hb =>
      cases hlines : (splitLines text).1 with
      | nil =>
        refine ⟨fun _ h => (List.not_mem_nil h).elim, fun h => ?_⟩
        rcases List.mem_cons.1 h with h | h
        · exact hb h.symm
        · exact ih.2 h
      | cons line lines =>
        rw [hlines, List.forall_mem_cons] at ih
        refine ⟨List.forall_mem_cons.2 ⟨fun h => ?_, ih.1.2⟩, ih.2⟩
        rcases List.mem_cons.1 h with h | h
        · exact hb h.symm
        · exact ih.1.1 h

/-- Each line has room in the buffer, with its carriage return and a NUL behind it. -/
def FitsDisplay (text : List BYTE) : Prop :=
  (∀ line ∈ (splitLines text).1, line.length + 1 < helptestBufferLength) ∧
    (splitLines text).2.length < helptestBufferLength ∧ (0 : BYTE) ∉ text

instance (text : List BYTE) : Decidable (FitsDisplay text) := inferInstanceAs (Decidable (_ ∧ _ ∧ _))

/-! ## The buffer -/

/-- The buffer holds a string, and NULs behind it. -/
structure HoldsString (response : ℕ → BYTE) (text : List BYTE) : Prop where
  noNul : (0 : BYTE) ∉ text
  fits : text.length < helptestBufferLength
  cells : ∀ i < helptestBufferLength, response i = text.getD i 0

theorem holdsString_cleared (response : ℕ → BYTE) : HoldsString (clearBuffer response) [] := by
  refine ⟨List.not_mem_nil, by decide, fun i hi => ?_⟩
  rw [clearBuffer, if_pos hi]
  rfl

/-- Bytes that are stored from the start on leave the rest of the string behind them. -/
theorem HoldsString.store {response : ℕ → BYTE} {text : List BYTE} (h : HoldsString response text)
    {data : List BYTE} (hdata : (0 : BYTE) ∉ data) (hfit : data.length < helptestBufferLength) :
    HoldsString (stored response 0 data) (data ++ text.drop data.length) := by
  refine ⟨fun hmem => ?_, ?_, fun i hi => ?_⟩
  · rcases List.mem_append.1 hmem with hmem | hmem
    · exact hdata hmem
    · exact h.noNul (List.mem_of_mem_drop hmem)
  · have := h.fits
    rw [List.length_append, List.length_drop]
    omega
  · rw [stored, Nat.zero_add]
    by_cases hlt : i < data.length
    · rw [if_pos ⟨Nat.zero_le i, hlt⟩, Nat.sub_zero, List.getD_append _ _ _ _ hlt]
    · rw [if_neg (fun hin => hlt hin.2), h.cells i hi, List.getD_append_right _ _ _ _ (Nat.not_lt.1 hlt),
        List.getD_eq_getElem?_getD, List.getD_eq_getElem?_getD, List.getElem?_drop,
        Nat.add_sub_cancel' (Nat.not_lt.1 hlt)]

/-- `printf` writes the string. -/
theorem HoldsString.stringAt {response : ℕ → BYTE} {text : List BYTE} (h : HoldsString response text) :
    stringAt response = text := by
  have hfits := h.fits
  have hlength : text.length + (2 ^ 16 - text.length) = 2 ^ 16 := by
    simp only [helptestBufferLength] at hfits
    omega
  have hfront : (List.range text.length).map response = text := by
    refine List.ext_getElem (by simp) fun i hi _ => ?_
    have hi' : i < text.length := by simpa using hi
    rw [List.getElem_map, List.getElem_range, h.cells i (by omega), List.getD_eq_getElem _ _ hi']
  obtain ⟨k, hk⟩ : ∃ k, 2 ^ 16 - text.length = k + 1 := by
    simp only [helptestBufferLength] at hfits
    exact Nat.exists_eq_succ_of_ne_zero (by omega)
  have hnul : response text.length = 0 := by
    rw [h.cells _ hfits, List.getD_eq_default _ _ le_rfl]
  rw [CpcLink.stringAt, ← hlength, List.range_add, List.map_append, hfront, hk, List.range_succ_eq_map,
    List.map_cons, List.map_cons, Nat.add_zero, hnul, List.takeWhile_append_of_pos, List.takeWhile_cons]
  · simp
  · intro b hb
    exact decide_eq_true fun h0 => h.noNul (h0 ▸ hb)

/-! ## One text -/

section
variable {response : ℕ → BYTE} (printed : List (List BYTE))

theorem displayFrom_returned (response : ℕ → BYTE) (wellFormed : Bool) (u : List BYTE) :
    displayFrom ⟨.returned wellFormed, response, printed⟩ u =
      (⟨.returned wellFormed, response, printed⟩, u) := by
  cases u with
  | nil => rfl
  | cons b rest => rfl

/-- A byte of a line. -/
theorem displayFrom_cons {b : BYTE} (hb : b ≠ 13) (index n : ℕ) (u : List BYTE) :
    displayFrom ⟨.message index n, response, printed⟩ (b :: u) = displayFrom
      ⟨messageLoop ((index + 1) % 2 ^ 8) n, Function.update response index b, printed⟩ u := by
  rw [displayFrom, displayTake]
  dsimp only
  rw [if_neg hb]

/-- The carriage return. -/
theorem displayFrom_return (index n : ℕ) (u : List BYTE) :
    displayFrom ⟨.message index n, response, printed⟩ (13 :: u) = displayFrom
      ⟨messageLoop 0 (n - index - 1), clearBuffer (Function.update response index 13),
        printed ++ [stringAt (Function.update response index 13)]⟩ u := rfl

/-- Bytes without one. -/
theorem displayFrom_part {index n : ℕ} {data : List BYTE} (hdata : (13 : BYTE) ∉ data)
    (hindex : index + data.length < 2 ^ 8) (hn : index + data.length ≤ n) (rest : List BYTE) :
    displayFrom ⟨messageLoop index n, response, printed⟩ (data ++ rest) = displayFrom
      ⟨messageLoop (index + data.length) n, stored response index data, printed⟩ rest := by
  induction data generalizing index response with
  | nil => rw [stored_nil]; rfl
  | cons b data ih =>
    rw [List.mem_cons, not_or] at hdata
    rw [List.length_cons] at hindex hn ⊢
    rw [messageLoop, if_pos (by omega), List.cons_append, displayFrom_cons printed (Ne.symm hdata.1),
      Nat.mod_eq_of_lt (by omega), ih hdata.2 (by omega) (by omega), stored_cons, Nat.add_right_comm,
      Nat.add_assoc]

/-- What is shown of lines, over what is left of a string in the buffer. -/
def shownLines (left : List BYTE) : List (List BYTE) → List (List BYTE)
  | [] => []
  | line :: lines => (line ++ [13] ++ left.drop (line.length + 1)) :: lines.map (· ++ [13])

/-- What is in the buffer behind a text. -/
def leftBehind (left : List BYTE) (lines : List (List BYTE)) (tail : List BYTE) : List BYTE :=
  if lines = [] then tail ++ left.drop tail.length else tail

theorem shownLines_nil (lines : List (List BYTE)) : shownLines [] lines = lines.map (· ++ [13]) := by
  cases lines with
  | nil => rfl
  | cons line lines => rw [shownLines, List.drop_nil, List.append_nil, List.map_cons]

theorem leftBehind_nil (lines : List (List BYTE)) (tail : List BYTE) : leftBehind [] lines tail = tail := by
  rw [leftBehind, List.drop_nil, List.append_nil, ite_self]

/-- A line, and its carriage return. -/
theorem displayFrom_line {left line : List BYTE} (hleft : HoldsString response left) {n : ℕ}
    (hline : (13 : BYTE) ∉ line) (hnul : (0 : BYTE) ∉ line)
    (hfit : line.length + 1 < helptestBufferLength) (hn : line.length < n) (rest : List BYTE) :
    ∃ response', HoldsString response' [] ∧
      displayFrom ⟨messageLoop 0 n, response, printed⟩ (line ++ 13 :: rest) = displayFrom
        ⟨messageLoop 0 (n - line.length - 1), response',
          printed ++ [line ++ [13] ++ left.drop (line.length + 1)]⟩ rest := by
  have hstored : HoldsString (stored response 0 (line ++ [13]))
      (line ++ [13] ++ left.drop (line.length + 1)) := by
    have hreturn : (0 : BYTE) ∉ line ++ [13] := by simpa using hnul
    have := hleft.store hreturn (by simpa using hfit)
    rwa [List.length_append, List.length_singleton] at this
  have hupdate : Function.update (stored response 0 line) line.length 13 =
      stored response 0 (line ++ [13]) := by
    rw [stored_snoc, Nat.zero_add]
  refine ⟨_, holdsString_cleared (stored response 0 (line ++ [13])), ?_⟩
  rw [displayFrom_part printed hline (by simp only [helptestBufferLength] at hfit; omega) (by omega),
    Nat.zero_add, messageLoop, if_pos hn, displayFrom_return printed, hupdate, hstored.stringAt]

/-- The lines and what is behind them. -/
theorem displayFrom_lines {left : List BYTE} (hleft : HoldsString response left)
    {lines : List (List BYTE)} {tail : List BYTE} (hlines : ∀ line ∈ lines, (13 : BYTE) ∉ line)
    (htail : (13 : BYTE) ∉ tail) (hfit : ∀ line ∈ lines, line.length + 1 < helptestBufferLength)
    (htailfit : tail.length < helptestBufferLength) (hnul : (0 : BYTE) ∉ joinLines lines tail)
    (rest : List BYTE) : ∃ response', HoldsString response' (leftBehind left lines tail) ∧
      displayFrom ⟨messageLoop 0 (joinLines lines tail).length, response, printed⟩
          (joinLines lines tail ++ rest) =
        displayFrom ⟨.trailer 0, response', printed ++ shownLines left lines⟩ rest := by
  induction lines generalizing response left printed with
  | nil =>
    refine ⟨_, hleft.store hnul htailfit, ?_⟩
    rw [joinLines, List.flatMap_nil, List.nil_append, displayFrom_part printed htail
      (by simp only [helptestBufferLength] at htailfit; omega) (by omega), shownLines, List.append_nil,
      Nat.zero_add, messageLoop, if_neg (lt_irrefl _)]
  | cons line lines ih =>
    obtain ⟨hreturn, hlines⟩ := List.forall_mem_cons.1 hlines
    obtain ⟨hshort, hfit⟩ := List.forall_mem_cons.1 hfit
    have hsplit : joinLines (line :: lines) tail = line ++ 13 :: joinLines lines tail := by
      simp [joinLines]
    have hlength : (joinLines (line :: lines) tail).length - line.length - 1 =
        (joinLines lines tail).length := by
      rw [hsplit, List.length_append, List.length_cons]
      omega
    rw [hsplit, List.mem_append, List.mem_cons, not_or, not_or] at hnul
    obtain ⟨response₁, hcleared, hrun⟩ := displayFrom_line printed hleft hreturn hnul.1
      hshort (n := (joinLines (line :: lines) tail).length)
      (by rw [hsplit, List.length_append, List.length_cons]; omega) (joinLines lines tail ++ rest)
    obtain ⟨response', hbehind, hrest⟩ := ih
      (printed ++ [line ++ [13] ++ left.drop (line.length + 1)]) hcleared hlines hfit hnul.2.2
    refine ⟨response', ?_, ?_⟩
    · rwa [leftBehind_nil] at hbehind
    · rw [hlength] at hrun
      rw [hsplit, List.append_assoc, List.cons_append, ← hsplit, hrun, hrest, shownLines_nil,
        shownLines, List.append_assoc, List.singleton_append]

/-- **A text** is taken off the stream, and its lines are shown. -/
theorem displayFrom_text {left text : List BYTE} (hleft : HoldsString response left)
    (htext : FitsDisplay text) (hsize : text.length ≤ 65532) (rest : List BYTE) :
    ∃ response', HoldsString response' (leftBehind left (splitLines text).1 (splitLines text).2) ∧
      displayFrom ⟨.header [], response, printed⟩ (encode textCommand text ++ rest) =
        (⟨.returned true, response', printed ++ shownLines left (splitLines text).1⟩, rest) := by
  obtain ⟨hlines, htail, hnul⟩ := htext
  have hjoin := joinLines_split text
  obtain ⟨response', hbehind, hrun⟩ := displayFrom_lines printed hleft
    (splitLines_noReturn text).1 (splitLines_noReturn text).2 hlines htail (by rwa [hjoin])
    (minusMinusMinus ++ rest)
  refine ⟨response', hbehind, ?_⟩
  have hheader : displayFrom ⟨.header [], response, printed⟩ (encode textCommand text ++ rest) =
      displayFrom ⟨headerLoop textCommand id (front textCommand text.length), response, printed⟩
        (text ++ (minusMinusMinus ++ rest)) := by
    rw [encode_eq_front, List.append_assoc, List.append_assoc]
    rfl
  have hmessage : messageLoop 0 (UInt16.ofNat text.length).toNat = messageLoop 0 text.length := by
    rw [UInt16.toNat_ofNat', Nat.mod_eq_of_lt (by omega)]
  rw [hjoin] at hrun
  rw [hheader, headerLoop_front hsize, if_pos rfl, id, hmessage, hrun,
    ← displayFrom_returned _ response']
  rfl

/-! ## A session -/

/-- The lines on the screen behind texts. -/
def screen (left : List BYTE) : List (List BYTE) → List (List BYTE)
  | [] => []
  | text :: texts => shownLines left (splitLines text).1 ++
      screen (leftBehind left (splitLines text).1 (splitLines text).2) texts

theorem displayAll_texts {left : List BYTE} (hleft : HoldsString response left) {texts : List (List BYTE)}
    (htexts : ∀ text ∈ texts, FitsDisplay text ∧ text.length ≤ 65532) (rest : List BYTE) :
    ∃ response', displayAll texts.length ⟨.returned true, response, printed⟩
      (texts.flatMap (encode textCommand) ++ rest) =
        (⟨.returned true, response', printed ++ screen left texts⟩, rest) := by
  induction texts generalizing response left printed with
  | nil => exact ⟨response, by rw [screen, List.append_nil]; rfl⟩
  | cons text texts ih =>
    obtain ⟨⟨hfit, hsize⟩, htexts⟩ := List.forall_mem_cons.1 htexts
    obtain ⟨response₁, hbehind, hrun⟩ := displayFrom_text printed hleft hfit hsize
      (texts.flatMap (encode textCommand) ++ rest)
    obtain ⟨response', hall⟩ := ih (printed ++ shownLines left (splitLines text).1) hbehind htexts
    refine ⟨response', ?_⟩
    rw [List.flatMap_cons, List.append_assoc, List.length_cons, displayAll]
    dsimp only
    rw [hrun]
    dsimp only
    rw [hall, screen, List.append_assoc]

/-- A tail of a single byte leaves nothing that a line does not cover. -/
theorem screen_eq_lines {left : List BYTE} (hleft : left.length ≤ 1) {texts : List (List BYTE)}
    (htexts : ∀ text ∈ texts, (splitLines text).2.length ≤ 1) :
    screen left texts = texts.flatMap fun text => (splitLines text).1.map (· ++ [13]) := by
  induction texts generalizing left with
  | nil => rfl
  | cons text texts ih =>
    obtain ⟨htail, htexts⟩ := List.forall_mem_cons.1 htexts
    have hbehind : (leftBehind left (splitLines text).1 (splitLines text).2).length ≤ 1 := by
      rw [leftBehind]
      split
      · rw [List.length_append, List.length_drop]
        omega
      · exact htail
    rw [screen, ih hbehind htexts, List.flatMap_cons]
    congr 1
    cases (splitLines text).1 with
    | nil => rfl
    | cons line lines =>
      rw [shownLines, List.drop_eq_nil_of_le (by omega), List.append_nil, List.map_cons]

end

/-! ## The texts of the server -/

/-- An out queue with nothing in it. -/
def emptyQueue : Queue := initQueue ⟨fun _ => 0, 0, 0⟩

/-- The packet of a help function. -/
def helpPacket (hf : HelpFunction) : List BYTE := (callHelpFunction hf emptyQueue).2.unread

/-- Its text. -/
def helpTextOf (hf : HelpFunction) : List BYTE :=
  ((helpPacket hf).drop 6).take ((helpPacket hf).length - 9)

/-- The help functions that are still to be written. -/
def unwritten : List HelpFunction :=
  [.commandPutFileHelp, .commandGetMemFileHelp, .commandPutMemFileHelp]

theorem length_encodePackets_text (text : List BYTE) :
    (encodePackets [(textCommand, text)]).length = text.length + 9 := by
  rw [encodePackets, List.flatMap_singleton, length_encode]

theorem helpPacket_eq {hf : HelpFunction} {text : List BYTE} (hsize : text.length ≤ 65532)
    (h : ∀ q, Valid q → (callHelpFunction hf q).2 = sendPackets q [(textCommand, text)]) :
    helpPacket hf = encode textCommand text ∧ helpTextOf hf = text := by
  have hempty : emptyQueue.count = 0 := count_initQueue _
  have hunread : emptyQueue.unread = [] := unread_eq_nil.2 hempty
  have hpacket : helpPacket hf = encode textCommand text := by
    have hsent := (sendPackets_unread [(textCommand, text)] (valid_initQueue ⟨fun _ => 0, 0, 0⟩) (by
      change (emptyQueue.count : ℤ) + _ < _
      rw [hempty, length_encodePackets_text]
      simp only [queueSize]
      omega)).2
    rw [helpPacket, h emptyQueue (valid_initQueue _)]
    refine hsent.trans ?_
    change emptyQueue.unread ++ _ = _
    rw [hunread]
    simp [encodePackets]
  refine ⟨hpacket, ?_⟩
  rw [helpTextOf, hpacket, length_encode, Nat.add_sub_cancel, encode_eq_front, List.append_assoc,
    List.drop_left' (by rfl : (front textCommand text.length).length = 6), List.take_left]

/-- The column behind a text that begins at a column, if no line of it is too long. -/
def columnBehind : ℕ → List BYTE → Option ℕ
  | column, [] => some column
  | column, b :: text =>
    if b = 0 then none
    else if b = 13 then if column + 1 < helptestBufferLength then columnBehind 0 text else none
    else columnBehind (column + 1) text

theorem columnBehind_append (column : ℕ) (text text' : List BYTE) :
    columnBehind column (text ++ text') =
      (columnBehind column text).bind fun column => columnBehind column text' := by
  induction text generalizing column with
  | nil => rfl
  | cons b text ih =>
    rw [List.cons_append, columnBehind, columnBehind]
    split_ifs
    · rfl
    · exact ih 0
    · rfl
    · exact ih (column + 1)

/-- The lines of such a text; the first of them goes on at the column. -/
structure FitsFrom (column k : ℕ) (text : List BYTE) : Prop where
  noNul : (0 : BYTE) ∉ text
  first : ∀ line ∈ (splitLines text).1.head?, column + line.length + 1 < helptestBufferLength
  lines : ∀ line ∈ (splitLines text).1, line.length + 1 < helptestBufferLength
  tail : (splitLines text).2.length ≤ k
  noLine : (splitLines text).1 = [] → column + (splitLines text).2.length = k

theorem fitsFrom_column {column k : ℕ} {text : List BYTE} (h : columnBehind column text = some k) :
    FitsFrom column k text := by
  induction text generalizing column with
  | nil =>
    cases h
    exact ⟨List.not_mem_nil, fun _ h => (Option.not_mem_none _ h).elim,
      fun _ h => (List.not_mem_nil h).elim, Nat.zero_le _, fun _ => rfl⟩
  | cons b text ih =>
    rw [columnBehind] at h
    split_ifs at h with h0 h13 hfit
    · obtain ⟨hnul, -, hlines, htail, hnone⟩ := ih h
      have hsplit : splitLines (b :: text) = ([] :: (splitLines text).1, (splitLines text).2) := by
        rw [splitLines, if_pos h13]
      refine ⟨List.not_mem_cons_of_ne_of_not_mem (Ne.symm h0) hnul, ?_, ?_, ?_, ?_⟩
      · rw [hsplit]
        intro line hline
        rw [List.head?_cons, Option.mem_some_iff] at hline
        rw [← hline]
        exact hfit
      · rw [hsplit]
        exact List.forall_mem_cons.2 ⟨by decide, hlines⟩
      · rwa [hsplit]
      · rw [hsplit]
        exact fun h => absurd h (List.cons_ne_nil _ _)
    · obtain ⟨hnul, hfirst, hlines, htail, hnone⟩ := ih h
      have hnul' := List.not_mem_cons_of_ne_of_not_mem (Ne.symm h0) hnul
      cases hl : (splitLines text).1 with
      | nil =>
        have hsplit : splitLines (b :: text) = ([], b :: (splitLines text).2) := by
          rw [splitLines, if_neg h13, hl]
        have hk := hnone hl
        refine ⟨hnul', ?_, ?_, ?_, ?_⟩ <;> rw [hsplit]
        · exact fun _ h => (Option.not_mem_none _ h).elim
        · exact fun _ h => (List.not_mem_nil h).elim
        · rw [List.length_cons]
          omega
        · intro _
          rw [List.length_cons]
          omega
      | cons line lines =>
        have hsplit : splitLines (b :: text) = ((b :: line) :: lines, (splitLines text).2) := by
          rw [splitLines, if_neg h13, hl]
        rw [hl] at hfirst hlines
        have hline := hfirst line rfl
        refine ⟨hnul', ?_, ?_, ?_, ?_⟩ <;> rw [hsplit]
        · intro line' hline'
          rw [List.head?_cons, Option.mem_some_iff] at hline'
          rw [← hline', List.length_cons]
          omega
        · refine List.forall_mem_cons.2 ⟨?_, fun l hl => hlines l (List.mem_cons_of_mem _ hl)⟩
          rw [List.length_cons]
          omega
        · exact htail
        · exact fun h => absurd h (List.cons_ne_nil _ _)

/-- A piece of a text that begins at the left and ends at column `k`. -/
structure HelpPiece (k : ℕ) (piece : List BYTE) : Prop where
  column : columnBehind 0 piece = some k
  length : piece.length ≤ 500

instance (k : ℕ) (piece : List BYTE) : Decidable (HelpPiece k piece) :=
  decidable_of_iff (columnBehind 0 piece = some k ∧ piece.length ≤ 500)
    ⟨fun h => ⟨h.1, h.2⟩, fun h => ⟨h.column, h.length⟩⟩

/-- The bytes of a literal are looked at without decoding it. -/
theorem piece_bytes {k : ℕ} {l : List Char} (h : HelpPiece k (l.map fun c => UInt8.ofNat c.toNat)) :
    HelpPiece k (bytes (String.ofList l)) := by
  rwa [bytes, String.toList_ofList]

/-- All the pieces of a text begin at the left, and the last ends at column `k`. -/
def Pieces (k : ℕ) : List (List BYTE) → Prop
  | [] => k = 0
  | [last] => HelpPiece k last
  | piece :: pieces => HelpPiece 0 piece ∧ Pieces k pieces

theorem columnBehind_pieces {k : ℕ} {pieces : List (List BYTE)} (h : Pieces k pieces) :
    columnBehind 0 pieces.flatten = some k ∧ ∀ piece ∈ pieces, piece.length ≤ 500 := by
  fun_induction Pieces k pieces with
  | case1 => exact ⟨congrArg some h.symm, fun _ h => (List.not_mem_nil h).elim⟩
  | case2 last =>
    rw [List.flatten_singleton]
    exact ⟨h.column, List.forall_mem_singleton.2 h.length⟩
  | case3 piece pieces _ ih =>
    obtain ⟨hpiece, hpieces⟩ := h
    rw [List.flatten_cons, columnBehind_append, hpiece.column]
    exact ⟨(ih hpieces).1, List.forall_mem_cons.2 ⟨hpiece.length, (ih hpieces).2⟩⟩

/-- A text that helptest shows, with the column behind it. -/
def ShowsAll (k : ℕ) (text : List BYTE) : Prop := columnBehind 0 text = some k ∧ text.length ≤ 65532

theorem ShowsAll.fits {k : ℕ} {text : List BYTE} (h : ShowsAll k text) (hk : k < helptestBufferLength) :
    FitsDisplay text ∧ (splitLines text).2.length ≤ k := by
  obtain ⟨hnul, -, hlines, htail, -⟩ := fitsFrom_column h.1
  exact ⟨⟨hlines, by omega, hnul⟩, htail⟩

theorem shows_pieces {k : ℕ} {pieces : List (List BYTE)} (h : Pieces k pieces)
    (hlength : pieces.length ≤ 130) : ShowsAll k pieces.flatten := by
  obtain ⟨hcolumn, hpieces⟩ := columnBehind_pieces h
  exact ⟨hcolumn, flatten_le hpieces hlength⟩

/-- The column behind the text of a help function. -/
def tailOf : HelpFunction → ℕ
  | .commandUnknownHelp => 21
  | _ => 1

set_option maxRecDepth 4000 in
theorem help_shows {hf : HelpFunction} (h : hf ∉ unwritten) :
    ShowsAll (tailOf hf) (helpTextOf hf) ∧ helpPacket hf = encode textCommand (helpTextOf hf) := by
  have shows : ∀ text, ShowsAll (tailOf hf) text →
      (∀ q, Valid q → (callHelpFunction hf q).2 = sendPackets q [(textCommand, text)]) →
      ShowsAll (tailOf hf) (helpTextOf hf) ∧ helpPacket hf = encode textCommand (helpTextOf hf) := by
    intro text hshows hsends
    obtain ⟨hpacket, htext⟩ := helpPacket_eq hshows.2 hsends
    rw [htext]
    exact ⟨hshows, hpacket⟩
  have single : ∀ text, HelpPiece (tailOf hf) text → (∀ q, callHelpFunction hf q = helpText q text) →
      ShowsAll (tailOf hf) (helpTextOf hf) ∧ helpPacket hf = encode textCommand (helpTextOf hf) := by
    intro text hpiece hcall
    refine shows text ⟨hpiece.column, by have := hpiece.length; omega⟩ fun q hq => ?_
    rw [hcall]
    rfl
  have array : ∀ pieces : List (List BYTE), ShowsAll (tailOf hf) pieces.flatten →
      (∀ q, callHelpFunction hf q = writeOutHelpTextArray q pieces) →
      ShowsAll (tailOf hf) (helpTextOf hf) ∧ helpPacket hf = encode textCommand (helpTextOf hf) := by
    intro pieces hshows hcall
    refine shows _ hshows fun q hq => ?_
    have := hshows.2
    rw [hcall, writeOutHelp_eq hq (by omega)]
  cases hf
  case commandPutFileHelp | commandGetMemFileHelp | commandPutMemFileHelp => exact absurd (by decide) h
  case commandHelpHelp =>
    exact array _ ⟨by decide +kernel, helpHelpPieces_le⟩ commandHelpHelp_eq
  case commandResetHelp | commandCreateAllocHelp | commandFreeAllocHelp | commandRetrieveAllocHelp |
      commandStoreAllocHelp | commandInsertAllocHelp | commandCutAllocHelp | commandLoadAllocHelp |
      commandSaveAllocHelp | commandGetFileHelp =>
    refine array _ (shows_pieces ?_ (by simp)) fun _ => rfl
    simp only [Pieces, tailOf]
    repeat' apply And.intro
    all_goals exact piece_bytes (by decide +kernel)
  all_goals exact single _ (piece_bytes (by decide +kernel)) fun _ => rfl

/-- **What helptest shows.**  However often and in whatever order it asks for the helps
    that there are, it takes their packets and no more, no line is longer than the buffer,
    and the screen has their lines: the whole of each text but for the newline at its end.
    Only the last line of the help for an unknown command, which has no carriage return, comes
    behind that of the next text, without its first letter, or not at all. -/
theorem help_displayed (hfs : List HelpFunction) (h : ∀ hf ∈ hfs, hf ∉ unwritten)
    (response : ℕ → BYTE) (rest : List BYTE) :
    (∃ response', displayAll hfs.length ⟨.returned true, clearBuffer response, []⟩
      (hfs.flatMap helpPacket ++ rest) =
        (⟨.returned true, response', screen [] (hfs.map helpTextOf)⟩, rest)) ∧
    (∀ hf ∈ hfs, FitsDisplay (helpTextOf hf)) ∧
    (.commandUnknownHelp ∉ hfs →
      (∀ hf ∈ hfs, (splitLines (helpTextOf hf)).2.length ≤ 1) ∧
      screen [] (hfs.map helpTextOf) =
        hfs.flatMap fun hf => (splitLines (helpTextOf hf)).1.map (· ++ [13])) := by
  have hpackets : hfs.flatMap helpPacket = (hfs.map helpTextOf).flatMap (encode textCommand) := by
    rw [List.flatMap_map]
    exact List.flatMap_congr fun hf hmem => (help_shows (h hf hmem)).2
  have hfits : ∀ hf ∈ hfs, FitsDisplay (helpTextOf hf) := by
    intro hf hmem
    refine ((help_shows (h hf hmem)).1.fits ?_).1
    cases hf <;> decide
  refine ⟨?_, hfits, fun hunknown => ?_⟩
  · rw [hpackets, ← List.length_map (f := helpTextOf)]
    refine displayAll_texts [] (holdsString_cleared response) (List.forall_mem_map.2 fun hf hmem => ?_) rest
    exact ⟨hfits hf hmem, (help_shows (h hf hmem)).1.2⟩
  · have htail : ∀ hf ∈ hfs, (splitLines (helpTextOf hf)).2.length ≤ 1 := by
      intro hf hmem
      obtain ⟨hshows, -⟩ := help_shows (h hf hmem)
      have hone : tailOf hf = 1 := by
        cases hf
        case commandUnknownHelp => exact absurd hmem hunknown
        all_goals rfl
      rw [hone] at hshows
      exact (hshows.fits (by decide)).2
    refine ⟨htail, ?_⟩
    rw [screen_eq_lines (List.length_nil.trans_le (Nat.zero_le 1)) (List.forall_mem_map.2 htail), List.flatMap_map]

/-- An instance: two texts, and a byte behind them. -/
theorem help_displayed_two :
    (∃ response', displayAll 2 ⟨.returned true, clearBuffer fun _ => 255, []⟩
      ([.commandPingHelp, .commandTimeHelp].flatMap helpPacket ++ [7]) =
        (⟨.returned true, response',
          screen [] ([HelpFunction.commandPingHelp, .commandTimeHelp].map helpTextOf)⟩, [7])) ∧
    screen [] ([HelpFunction.commandPingHelp, .commandTimeHelp].map helpTextOf) =
      [HelpFunction.commandPingHelp, .commandTimeHelp].flatMap fun hf =>
        (splitLines (helpTextOf hf)).1.map (· ++ [13]) := by
  obtain ⟨hrun, -, hscreen⟩ :=
    help_displayed [.commandPingHelp, .commandTimeHelp] (by decide) (fun _ => 255) [7]
  exact ⟨hrun, (hscreen (by decide)).2⟩

end CpcLink
