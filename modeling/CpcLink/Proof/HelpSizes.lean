/-
  The size that a help text announces (command.c, command_general.c).

  It is worked out before the text is added: by `size_of_string_array`, and for
  the list of the commands by a loop and a quotient for its newlines.  Both are
  the number of bytes that are added, whatever the strings and however long the
  table.  The size field has two bytes, so the packet says its size as long as
  the text has no more than 65532 bytes (`saysItsSize_iff`).
-/
import CpcLink.Proof.HelpTexts

namespace CpcLink

/-- A packet is started for a payload of this size, the pieces are added and it is
    finished. -/
def buildText (q : Queue) (payloadSize : ℤ) (pieces : List (List BYTE)) : Bool × Queue :=
  let r := startBuildDataPacket q payloadSize textCommand
  if r.1 then (true, finishBuildDataPacketAndSend (pieces.foldl addDataToPacket r.2))
  else (false, r.2)

/-- How often the loop over the rows of a table ends a line. -/
def listNewlines (defs : List CommandDef) : ℕ :=
  (listedCommands defs).countP fun command => command.2 % 7 = 0

/-- A text packet has gone out, and the size in its header is that of its body. -/
def SaysItsSize (q q' : Queue) (text : List BYTE) : Prop :=
  ∃ low high : BYTE, q' = (plusPlusPlus ++ [low, high, textCommand] ++ text ++
    minusMinusMinus).foldl storeByte q ∧ low.toNat + high.toNat * 256 = text.length + 3

/-- A help function starts its packet for exactly the bytes it adds.  With space
    for it the packet goes out whole, and its size field is right if and only if
    two bytes can say the size; without, nothing goes out. -/
structure DeclaresSize (helpFunction : Queue → Bool × Queue) (declared : ℤ)
    (pieces : List (List BYTE)) : Prop where
  builds : ∀ q, helpFunction q = buildText q declared pieces
  size : declared = pieces.flatten.length
  sent : ∀ q, Valid q → isQueueSpaceAvailable q (declared + 9) = true →
    helpFunction q = (true, emit q textCommand pieces.flatten) ∧
      (SaysItsSize q (helpFunction q).2 pieces.flatten ↔ declared ≤ 65532)
  refused : ∀ q, Valid q → isQueueSpaceAvailable q (declared + 9) = false →
    helpFunction q = (false, q)

section
variable {q : Queue} {defs : List CommandDef}

/-! ## The newlines of the list -/

/-- A line ends behind every seventh name. -/
theorem countP_sevenths (names : List (List BYTE)) (k : ℕ) :
    (names.zipIdx (k + 1)).countP (fun command => command.2 % 7 = 0) =
      (k + names.length) / 7 - k / 7 := by
  induction names generalizing k with
  | nil => simp
  | cons n names ih =>
    rw [List.zipIdx_cons, List.countP_cons, ih (k + 1), List.length_cons]
    split
    next h =>
      have h7 : (k + 1) % 7 = 0 := of_decide_eq_true h
      omega
    next h =>
      have h7 : ¬ (k + 1) % 7 = 0 := fun h7 => h (decide_eq_true h7)
      omega

theorem listNewlines_eq (defs : List CommandDef) : listNewlines defs = (defs.length - 1) / 7 := by
  have hcount := countP_sevenths (defs.tail.map (·.commandText)) 0
  rw [Nat.zero_add, Nat.zero_add, Nat.zero_div, Nat.sub_zero, List.length_map,
    List.length_tail] at hcount
  rw [listNewlines, listedCommands_eq]
  exact hcount

/-! ## The packet -/

/-- The two bytes of the size field can say sizes up to 65535. -/
theorem saysItsSize_iff (text : List BYTE) :
    SaysItsSize q (emit q textCommand text) text ↔ (text.length : ℤ) ≤ 65532 := by
  constructor
  · rintro ⟨low, high, -, hsize⟩
    have hlow := low.toNat_lt
    have hhigh := high.toNat_lt
    omega
  · intro hlen
    refine ⟨byte (text.length + 3), byte ((text.length + 3) / 256), ?_, ?_⟩
    · rw [emit, encode_eq_front]
      rfl
    · have hlow : (byte ((text.length + 3 : ℕ) : ℤ)).toNat = _ := toNat_byte _
      have hhigh : (byte (((text.length + 3) / 256 : ℕ) : ℤ)).toNat = _ := toNat_byte _
      push_cast at hlow hhigh
      rw [hlow, hhigh]
      omega

theorem buildText_eq (h : Valid q) (pieces : List (List BYTE)) :
    buildText q pieces.flatten.length pieces =
      if isQueueSpaceAvailable q (pieces.flatten.length + 9) then
        (true, emit q textCommand pieces.flatten)
      else (false, q) := by
  rw [buildText, h.startBuild (by omega)]
  by_cases hs : isQueueSpaceAvailable q (pieces.flatten.length + 9) = true
  · have hf := (h.fits (by omega)).1 hs
    have hle := hf.le
    have hlf : (front textCommand pieces.flatten.length).length = 6 := rfl
    simp only [hs, if_true]
    rw [addPieces_eq h _ _ (by rw [hlf]; push_cast; omega), finish_eq h hf]
  · simp only [hs, Bool.false_eq_true, if_false]

/-- Who starts a packet for the bytes he adds declares its size. -/
theorem declaresSize {helpFunction : Queue → Bool × Queue} {declared : ℤ}
    {pieces : List (List BYTE)} (hsize : declared = pieces.flatten.length)
    (hbuilds : ∀ q, helpFunction q = buildText q declared pieces) :
    DeclaresSize helpFunction declared pieces := by
  subst hsize
  refine ⟨hbuilds, rfl, fun q hq hs => ?_, fun q hq hs => ?_⟩
  · have hsent := (hbuilds q).trans ((buildText_eq hq pieces).trans (if_pos hs))
    exact ⟨hsent, by rw [hsent]; exact saysItsSize_iff pieces.flatten⟩
  · exact (hbuilds q).trans ((buildText_eq hq pieces).trans (if_neg (Bool.eq_false_iff.1 hs)))

theorem commandHelpHelpOf_builds (defs : List CommandDef) (q : Queue) :
    commandHelpHelpOf defs q = buildText q (commandTextSize defs) (helpHelpPieces defs) := by
  rw [commandHelpHelpOf, buildText, helpHelpPieces, List.foldl_append, List.foldl_append,
    ← foldl_listCommand]
  rfl

/-- **Help texts declare their true size.**  For every array of strings and every
    table of commands, as long as the size of the packet is an `int`, what is
    passed to `start_build_data_packet` is the number of bytes that are added
    before the packet is finished; among them one newline behind every seventh
    name.  The packet's size field is right if and only if it has no more than
    65532 bytes of text. -/
theorem help_declares_size (textArray : List (List BYTE)) (defs : List CommandDef)
    (hrows : defs ≠ []) (hsize : (textArray.flatten.length : ℤ) + 9 < 2 ^ 31)
    (hlist : ((helpHelpPieces defs).flatten.length : ℤ) + 9 < 2 ^ 31) :
    DeclaresSize (fun q => writeOutHelpTextArray q textArray) (sizeOfStringArray textArray)
        textArray ∧
      DeclaresSize (commandHelpHelpOf defs) (commandTextSize defs) (helpHelpPieces defs) ∧
      listNewlines defs = (defs.length - 1) / 7 :=
  ⟨declaresSize (sizeOfStringArray_eq (by omega)) fun _ => rfl,
    declaresSize (commandTextSize_eq hrows (by omega)) (commandHelpHelpOf_builds defs),
    listNewlines_eq defs⟩

/-- An instance: a text in three pieces, one of them empty, and the table of this server. -/
theorem help_declares_size_table :
    DeclaresSize (fun q => writeOutHelpTextArray q [[13, 72], [], [13, 10]])
        (sizeOfStringArray [[13, 72], [], [13, 10]]) [[13, 72], [], [13, 10]] ∧
      DeclaresSize (commandHelpHelpOf commandDefs) (commandTextSize commandDefs)
        (helpHelpPieces commandDefs) ∧
      listNewlines commandDefs = (commandDefs.length - 1) / 7 :=
  help_declares_size _ _ (List.ne_nil_of_length_pos (by decide)) (by decide)
    (by have := helpHelpPieces_le; omega)

/-- A text of 65533 bytes goes out, and its size field cannot say so. -/
theorem help_size_field_wraps : ∃ (textArray : List (List BYTE)) (q q' : Queue), Valid q ∧
    writeOutHelpTextArray q textArray = (true, q') ∧
    sizeOfStringArray textArray = textArray.flatten.length ∧
    ¬ SaysItsSize q q' textArray.flatten := by
  have hvalid : Valid ⟨fun _ => 0, 0, 0⟩ :=
    ⟨⟨⟨by decide, by decide⟩, by decide, by decide⟩, by decide⟩
  generalize hq : (⟨fun _ => 0, 0, 0⟩ : Queue) = q at hvalid
  generalize htext : [List.replicate 65533 (65 : BYTE)] = textArray
  have hlen : textArray.flatten.length = 65533 := by
    rw [← htext, List.flatten_singleton, List.length_replicate]
  have hsize := @sizeOfStringArray_eq textArray (by rw [hlen]; decide)
  have hspace : isQueueSpaceAvailable q ((textArray.flatten.length : ℤ) + 9) = true := by
    rw [hlen, ← hq]
    decide
  have hsent : writeOutHelpTextArray q textArray = (true, emit q textCommand textArray.flatten) :=
    calc writeOutHelpTextArray q textArray
        = buildText q (sizeOfStringArray textArray) textArray := rfl
      _ = buildText q textArray.flatten.length textArray := by rw [hsize]
      _ = (true, emit q textCommand textArray.flatten) := (buildText_eq hvalid _).trans (if_pos hspace)
  refine ⟨textArray, q, _, hvalid, hsent, hsize, fun hsays => ?_⟩
  have hle := (saysItsSize_iff _).1 hsays
  rw [hlen] at hle
  exact absurd hle (by decide)

end

end CpcLink
