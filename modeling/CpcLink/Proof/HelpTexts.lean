/-
  The help functions answer with one packet, whose announced size is the size of
  its text, or with nothing.
-/
import CpcLink.Help
import CpcLink.Proof.Handlers

namespace CpcLink

section
variable {q : Queue}

/-! ## Texts in pieces -/

theorem addPieces_eq (h : Valid q) (a : List BYTE) (pieces : List (List BYTE))
    (hn : (q.count : ℤ) + a.length + pieces.flatten.length < queueSize) :
    pieces.foldl addDataToPacket (a.foldl storeByte q) = (a ++ pieces.flatten).foldl storeByte q := by
  induction pieces generalizing a with
  | nil => simp
  | cons t pieces ih =>
    simp only [List.flatten_cons, List.length_append] at hn
    push_cast at hn
    rw [List.foldl_cons, addDataToPacket, h.write_after (by omega) (by omega),
      ih (a ++ t) (by rw [List.length_append]; push_cast; omega), List.append_assoc]; rfl

/-- The size of a text that is no longer than an `int` says. -/
theorem sizeOfStringArray_eq {textArray : List (List BYTE)}
    (hlen : (textArray.flatten.length : ℤ) < 2 ^ 31) :
    sizeOfStringArray textArray = textArray.flatten.length := by
  have hfold : ∀ size : ℤ, 0 ≤ size → size + textArray.flatten.length < 2 ^ 31 →
      textArray.foldl (fun (sizeOfArray : ℤ) text => wrap32 (sizeOfArray + (text.length : ℤ))) size =
        size + textArray.flatten.length := by
    clear hlen
    induction textArray with
    | nil => exact fun size _ _ => (Int.add_zero size).symm
    | cons t textArray ih =>
      intro size h0 hlen
      rw [List.flatten_cons, List.length_append, Nat.cast_add] at hlen ⊢
      rw [List.foldl_cons, wrap32_id (by omega) (by omega), ih _ (by omega) (by omega)]
      omega
  rw [sizeOfStringArray, hfold 0 le_rfl (by omega), Int.zero_add]

/-- A help text array is sent as one packet, if there is space. -/
theorem writeOutHelp_eq (h : Valid q) {pieces : List (List BYTE)}
    (hlen : (pieces.flatten.length : ℤ) < 2 ^ 31) :
    writeOutHelpTextArray q pieces =
      (isQueueSpaceAvailable q (pieces.flatten.length + 9),
        sendPackets q [(textCommand, pieces.flatten)]) := by
  rw [sendPackets_single h, writeOutHelpTextArray, sizeOfStringArray_eq hlen, h.startBuild (by omega)]
  by_cases hs : isQueueSpaceAvailable q (pieces.flatten.length + 9) = true
  · have hf := (h.fits (by omega)).1 hs
    have hle := hf.le
    have hlf : (front textCommand pieces.flatten.length).length = 6 := rfl
    simp only [hs, if_true]
    rw [addPieces_eq h _ _ (by rw [hlf]; push_cast; omega), finish_eq h hf]
  · simp only [hs, Bool.false_eq_true, if_false]

/-! ## The help of `HELP` -/

/-- What one round of the list writes. -/
def listedPieces (command : List BYTE × ℕ) : List (List BYTE) :=
  [command.1, bytes " "] ++ if command.2 % 7 = 0 then [bytes "\r"] else []

/-- All that `command_help_help` adds, for the rows of a table. -/
def helpHelpPieces (defs : List CommandDef) : List (List BYTE) :=
  [response1Text, response2Text, response3Text] ++ (listedCommands defs).flatMap listedPieces ++
    [response4Text, response5Text]

theorem foldl_listCommand (commands : List (List BYTE × ℕ)) (q : Queue) :
    commands.foldl listCommand q = (commands.flatMap listedPieces).foldl addDataToPacket q := by
  induction commands generalizing q with
  | nil => rfl
  | cons c commands ih =>
    rw [List.foldl_cons, ih, List.flatMap_cons, List.foldl_append]
    congr 1
    simp only [listCommand, listedPieces]
    split <;> rfl

/-- A newline goes out behind every seventh name. -/
theorem listedPieces_length (names : List (List BYTE)) (k : ℕ) :
    ((names.zipIdx (k + 1)).flatMap listedPieces).flatten.length =
      (names.map fun n => n.length + 1).sum + ((k + names.length) / 7 - k / 7) := by
  induction names generalizing k with
  | nil => simp
  | cons n names ih =>
    have hsp : (bytes " ").length = 1 := length_bytes _
    have hcr : (bytes "\r").length = 1 := length_bytes _
    rw [List.zipIdx_cons, List.flatMap_cons, List.flatten_append, List.length_append, ih (k + 1)]
    simp only [listedPieces, List.map_cons, List.sum_cons, List.length_cons]
    split <;> simp only [List.flatten_append, List.flatten_cons, List.flatten_nil, List.length_append,
      List.length_nil, hsp, hcr] <;> omega

theorem listedCommands_eq (defs : List CommandDef) :
    listedCommands defs = (defs.tail.map (·.commandText)).zipIdx 1 := by
  cases defs <;> rfl

/-- The loop over the rows of the table adds up their names, each with a space. -/
theorem foldl_names (names : List (List BYTE)) (k : ℕ) {size : ℤ} (h0 : 0 ≤ size)
    (hlen : size + ((names.map fun n => n.length + 1).sum : ℕ) < 2 ^ 31) :
    (names.zipIdx k).foldl
        (fun (commandTextSize : ℤ) command =>
          wrap32 (commandTextSize + (command.1.length : ℤ) + 1)) size =
      size + ((names.map fun n => n.length + 1).sum : ℕ) := by
  induction names generalizing k size with
  | nil => exact (Int.add_zero size).symm
  | cons n names ih =>
    rw [List.map_cons, List.sum_cons, Nat.cast_add, Nat.cast_add, Nat.cast_one] at hlen ⊢
    have hname : wrap32 (size + n.length + 1) = size + n.length + 1 :=
      wrap32_id (by omega) (by omega)
    rw [List.zipIdx_cons, List.foldl_cons, hname, ih (k + 1) (by omega) (by omega)]
    omega

/-- The size announced is the size of what is added. -/
theorem commandTextSize_eq {defs : List CommandDef} (h : defs ≠ [])
    (hlen : ((helpHelpPieces defs).flatten.length : ℤ) < 2 ^ 31) :
    commandTextSize defs = (helpHelpPieces defs).flatten.length := by
  have hlist := listedPieces_length (defs.tail.map (·.commandText)) 0
  have hpos : 1 ≤ defs.length := List.length_pos_of_ne_nil h
  have hrows : (defs.tail.map (·.commandText)).length = defs.length - 1 := by
    rw [List.length_map, List.length_tail]
  rw [hrows] at hlist
  rw [helpHelpPieces, listedCommands_eq] at hlen ⊢
  simp only [List.flatten_append, List.flatten_cons, List.flatten_nil, List.length_append,
    List.length_nil, hlist] at hlen ⊢
  rw [commandTextSize, listedCommands_eq, foldl_names _ 1 le_rfl (by omega)]
  rw [wrap32_id (by omega) (by omega)]
  omega

/-! ## All help functions -/

theorem flatten_le {pieces : List (List BYTE)} (h : ∀ t ∈ pieces, t.length ≤ 500)
    (hl : pieces.length ≤ 130) : pieces.flatten.length ≤ 65532 := by
  have : pieces.flatten.length ≤ 500 * pieces.length := by
    clear hl
    induction pieces with
    | nil => simp
    | cons t pieces ih =>
      have h1 := h t (by simp)
      have h2 := ih fun t' ht' => h t' (by simp [ht'])
      simp only [List.flatten_cons, List.length_append, List.length_cons]; omega
  omega

theorem commandText_le : ∀ row ∈ commandDefs, row.commandText.length ≤ 30 := by
  simp only [commandDefs, List.forall_mem_cons, List.not_mem_nil, false_imp_iff, implies_true, and_true]
  repeat' apply And.intro
  all_goals exact (length_bytes _).trans_le (by decide)

theorem listedCommands_le {c : List BYTE × ℕ} (hc : c ∈ listedCommands commandDefs) : c.1.length ≤ 30 := by
  have hm := List.mem_of_mem_tail hc
  obtain ⟨row, hrow, he⟩ := List.mem_map.1 (List.fst_mem_of_mem_zipIdx hm)
  rw [← he]; exact commandText_le row hrow

theorem helpHelpPieces_le : (helpHelpPieces commandDefs).flatten.length ≤ 65532 := by
  refine flatten_le (fun t ht => ?_) (by decide)
  rcases List.mem_append.1 ht with ht | ht
  · rcases List.mem_append.1 ht with ht | ht
    · simp only [List.mem_cons, List.not_mem_nil, or_false] at ht
      rcases ht with rfl | rfl | rfl <;> exact (length_bytes _).trans_le (by decide)
    · obtain ⟨c, hc, ht⟩ := List.mem_flatMap.1 ht
      have hle := listedCommands_le hc
      simp only [listedPieces, List.mem_append, List.mem_cons, List.not_mem_nil, or_false] at ht
      rcases ht with (rfl | rfl) | ht
      · omega
      · exact (length_bytes _).trans_le (by decide)
      · split at ht
        · rw [List.mem_singleton.1 ht]; exact (length_bytes _).trans_le (by decide)
        · cases ht
  · simp only [List.mem_cons, List.not_mem_nil, or_false] at ht
    rcases ht with rfl | rfl <;> exact (length_bytes _).trans_le (by decide)

theorem commandHelpHelp_eq (q : Queue) :
    commandHelpHelp q = writeOutHelpTextArray q (helpHelpPieces commandDefs) := by
  have hle := helpHelpPieces_le
  rw [commandHelpHelp, commandHelpHelpOf, commandTextSize_eq (List.ne_nil_of_length_pos (by decide)) (by omega),
    writeOutHelpTextArray, sizeOfStringArray_eq (by omega), helpHelpPieces, List.foldl_append,
    List.foldl_append, ← foldl_listCommand]
  rfl

-- the longest text has some 240 characters to count
set_option maxRecDepth 4000 in
/-- **A help function sends one packet or none.** -/
theorem callHelp_sends (hf : HelpFunction) : ∃ packets, Sized packets ∧ packets.length ≤ 1 ∧
    ∀ q, Valid q → (callHelpFunction hf q).2 = sendPackets q packets := by
  have text : ∀ (hf : HelpFunction) (t : List BYTE), t.length ≤ 65532 →
      (∀ q, callHelpFunction hf q = helpText q t) → ∃ packets, Sized packets ∧ packets.length ≤ 1 ∧
        ∀ q, Valid q → (callHelpFunction hf q).2 = sendPackets q packets := fun hf t ht he =>
    ⟨[(textCommand, t)], sized_single ht, le_rfl, fun q _ => by rw [he]; rfl⟩
  have array : ∀ (hf : HelpFunction) (pieces : List (List BYTE)), pieces.flatten.length ≤ 65532 →
      (∀ q, callHelpFunction hf q = writeOutHelpTextArray q pieces) →
      ∃ packets, Sized packets ∧ packets.length ≤ 1 ∧
        ∀ q, Valid q → (callHelpFunction hf q).2 = sendPackets q packets := fun hf pieces hl he =>
    ⟨[(textCommand, pieces.flatten)], sized_single hl, le_rfl, fun q hq => by
      rw [he, writeOutHelp_eq hq (by omega)]⟩
  have none : ∀ hf : HelpFunction, (∀ q, callHelpFunction hf q = (false, q)) →
      ∃ packets, Sized packets ∧ packets.length ≤ 1 ∧
        ∀ q, Valid q → (callHelpFunction hf q).2 = sendPackets q packets := fun hf he =>
    ⟨[], sized_nil, by simp, fun q _ => by rw [he]; rfl⟩
  cases hf
  case commandHelpHelp => exact array _ _ helpHelpPieces_le commandHelpHelp_eq
  case commandPutFileHelp | commandGetMemFileHelp | commandPutMemFileHelp =>
    exact none _ fun _ => rfl
  case commandResetHelp | commandCreateAllocHelp | commandFreeAllocHelp | commandRetrieveAllocHelp |
      commandStoreAllocHelp | commandInsertAllocHelp | commandCutAllocHelp | commandLoadAllocHelp |
      commandSaveAllocHelp | commandGetFileHelp =>
    refine array _ _ (flatten_le ?_ (by simp)) fun _ => rfl
    simp only [List.forall_mem_cons, List.not_mem_nil, false_imp_iff, implies_true, and_true]
    repeat' apply And.intro
    all_goals exact (length_bytes _).trans_le (by decide)
  all_goals exact text _ _ ((length_bytes _).trans_le (by decide)) fun _ => rfl

end

end CpcLink
