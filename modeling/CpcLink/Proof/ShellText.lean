/-
  When the result of a shell command is packed faithfully (command_general.c).

  The lines of the result go through a buffer of 256 bytes as C strings.  A line
  that is too long is written past the buffer (`shellResult_ok_iff`), and a NUL
  hides the rest of its line, so that fewer bytes are written than were announced
  (`shellResult_writes`).
-/
import CpcLink.Proof.ShellRuns

namespace CpcLink

/-! ## Lines -/

/-- The bytes that end a line of the result. -/
def isLineEnd (b : BYTE) : Bool := isNewline b || b = 13

/-- How many bytes may stand in the buffer in front of `post`: a line needs a
    place for its carriage return and its NUL, the end of the file one for its NUL. -/
def lineRoom (post : List BYTE) : ℕ := if post = [] then 255 else 254

/-- No piece of a line is longer than what may stand in the buffer. -/
def LinesFit (result : List BYTE) : Prop := ∀ pre line post, result = pre ++ line ++ post →
  (∀ b ∈ line, isLineEnd b = false) → line.length ≤ lineRoom post

/-- The same of the line at the start of `result`, with `n` bytes of it in the
    buffer already. -/
def FirstFits (n : ℕ) (result : List BYTE) : Prop := ∀ line post, result = line ++ post →
  (∀ b ∈ line, isLineEnd b = false) → n + line.length ≤ lineRoom post

theorem lineRoom_le (post : List BYTE) : lineRoom post ≤ 255 := by
  unfold lineRoom; split <;> omega

@[simp] theorem lineRoom_cons (b : BYTE) (post : List BYTE) : lineRoom (b :: post) = 254 :=
  if_neg (by simp)

theorem LinesFit.first {result : List BYTE} (hl : LinesFit result) : FirstFits 0 result :=
  fun line post he hline => by simpa using hl [] line post he hline

theorem firstFits_nil {n : ℕ} : FirstFits n [] ↔ n ≤ 255 := by
  constructor
  · exact fun hf => hf [] [] rfl (by simp)
  · intro hn line post he _
    obtain ⟨rfl, rfl⟩ := List.append_eq_nil_iff.1 he.symm
    exact hn

theorem linesFit_nil : LinesFit [] := by
  intro pre line post he _
  obtain ⟨h1, rfl⟩ := List.append_eq_nil_iff.1 he.symm
  obtain ⟨rfl, rfl⟩ := List.append_eq_nil_iff.1 h1
  simp

section
variable {ch : BYTE} {rest : List BYTE}

theorem firstFits_end {n : ℕ} (hch : isLineEnd ch = true) : FirstFits n (ch :: rest) ↔ n ≤ 254 := by
  constructor
  · exact fun hf => by simpa using hf [] (ch :: rest) rfl (by simp)
  · intro hn line post he hline
    cases line with
    | nil =>
      rw [List.nil_append] at he
      rw [← he, lineRoom_cons]
      exact hn
    | cons b line =>
      obtain ⟨rfl, -⟩ := List.cons.inj he
      rw [hline ch (by simp)] at hch
      cases hch

theorem firstFits_more {n : ℕ} (hch : isLineEnd ch = false) :
    FirstFits n (ch :: rest) ↔ FirstFits (n + 1) rest := by
  constructor
  · intro hf line post he hline
    have hcons := hf (ch :: line) post (by rw [he]; rfl)
      fun b hb => (List.mem_cons.1 hb).elim (fun hb => by rw [hb]; exact hch) (hline b)
    rw [List.length_cons] at hcons
    omega
  · intro hf line post he hline
    cases line with
    | nil =>
      have hrest := hf [] rest rfl (by simp)
      have hroom := lineRoom_le rest
      rw [List.nil_append] at he
      rw [← he, lineRoom_cons, List.length_nil] at *
      omega
    | cons b line =>
      obtain ⟨rfl, hrest⟩ := List.cons.inj he
      have hline' := hf line post hrest fun b hb => hline b (List.mem_cons_of_mem _ hb)
      rw [List.length_cons]
      omega

/-- The pieces of a result are those at its start and those of what is behind its
    first byte. -/
theorem linesFit_cons : LinesFit (ch :: rest) ↔ FirstFits 0 (ch :: rest) ∧ LinesFit rest := by
  constructor
  · intro hl
    exact ⟨hl.first, fun pre line post he hline => hl (ch :: pre) line post (by rw [he]; rfl) hline⟩
  · rintro ⟨hf, hl⟩ pre line post he hline
    cases pre with
    | nil => simpa using hf line post he hline
    | cons b pre =>
      obtain ⟨-, hrest⟩ := List.cons.inj he
      exact hl pre line post hrest hline

end

/-! ## The loop -/

theorem lineEnd_iff {ch : BYTE} : isLineEnd ch = true ↔ isNewline ch = true ∨ ch = 13 := by
  rw [isLineEnd, Bool.or_eq_true, decide_eq_true_iff]

/-- The loop stays in its buffer exactly if the lines fit. -/
theorem shellResult_ok_iff (result line : List BYTE) (q : Queue) :
    (∃ q', shellResultLoop result line q = .ok q') ↔
      FirstFits line.length result ∧ LinesFit result := by
  induction result generalizing line q with
  | nil =>
    rw [shellResultLoop, firstFits_nil, and_iff_left linesFit_nil]
    split_ifs with h0 hlt
    · exact iff_of_true ⟨_, rfl⟩ (by simp at hlt; omega)
    · exact iff_of_false (by rintro ⟨q', hq⟩; cases hq) (by simp at hlt; omega)
    · exact iff_of_true ⟨_, rfl⟩ (by omega)
  | cons ch rest ih =>
    rw [shellResultLoop, linesFit_cons]
    by_cases hch : isLineEnd ch = true
    · have hfirst : FirstFits 0 (ch :: rest) := (firstFits_end hch).2 (by omega)
      rw [if_pos (lineEnd_iff.1 hch), firstFits_end hch, and_iff_right hfirst]
      split_ifs with hlt
      · have hcond : line.length ≤ 254 := by simp at hlt; omega
        rw [ih, and_iff_right hcond]
        exact ⟨fun hf => hf.2, fun hl => ⟨hl.first, hl⟩⟩
      · refine iff_of_false (by rintro ⟨q', hq⟩; cases hq) ?_
        rintro ⟨hle, -⟩
        simp at hlt
        omega
    · have hfalse : isLineEnd ch = false := Bool.eq_false_iff.2 hch
      have hlen : (line ++ [ch]).length = line.length + 1 := by simp
      rw [if_neg (mt lineEnd_iff.2 hch), firstFits_more hfalse, firstFits_more hfalse]
      split_ifs with hlt
      · rw [ih, hlen]
        constructor
        · rintro ⟨hf, hl⟩
          refine ⟨hf, fun p post he hp => ?_, hl⟩
          have hle := hf p post he hp
          omega
        · rintro ⟨hf, -, hl⟩
          exact ⟨hf, hl⟩
      · refine iff_of_false (by rintro ⟨q', hq⟩; cases hq) ?_
        rintro ⟨hf, -, -⟩
        have hnext := hf [] rest rfl (by simp)
        have hroom := lineRoom_le rest
        simp at hlt hnext
        omega

theorem length_cString_le (l : List BYTE) : (cString l).length ≤ l.length :=
  (List.takeWhile_prefix _).length_le

/-- A NUL hides itself and what is behind it. -/
theorem length_cString_lt {l : List BYTE} (h : (0 : BYTE) ∈ l) : (cString l).length < l.length := by
  refine lt_of_le_of_ne (length_cString_le l) fun he => ?_
  have hself : cString l = l := (List.takeWhile_prefix _).eq_of_length he
  have hne := List.takeWhile_eq_self_iff.1 hself 0 h
  simp at hne

section
variable {q : Queue}

/-- What the loop writes is at most what is in the result, and less if a NUL is. -/
theorem shellResult_writes (h : Valid q) (result line : List BYTE) {a : List BYTE} {q' : Queue}
    (hn : (q.count : ℤ) + a.length + line.length + result.length < queueSize)
    (hq : shellResultLoop result line (a.foldl storeByte q) = .ok q') :
    ∃ out, q' = (a ++ out).foldl storeByte q ∧ out.length ≤ line.length + result.length ∧
      ((0 : BYTE) ∈ line ++ result → out.length < line.length + result.length) := by
  induction result generalizing line a with
  | nil =>
    simp only [List.length_nil, Nat.cast_zero, Int.add_zero] at hn
    have hle := length_cString_le line
    rw [shellResultLoop] at hq
    split_ifs at hq with h1 h2
    · cases hq
      refine ⟨cString line, addData_after h (by omega), hle, fun h0 => ?_⟩
      rw [List.append_nil] at h0
      exact length_cString_lt h0
    · cases hq
      obtain rfl : line = [] := List.eq_nil_of_length_eq_zero (by omega)
      exact ⟨[], by simp, le_rfl, by simp⟩
  | cons ch rest ih =>
    simp only [List.length_cons] at hn ⊢
    push_cast at hn
    rw [shellResultLoop] at hq
    split_ifs at hq with h1 h2 h2
    · have hlen : (line ++ [(13 : BYTE)]).length = line.length + 1 := by simp
      have hle := length_cString_le (line ++ [13])
      rw [addData_after h (by omega)] at hq
      obtain ⟨out, rfl, hout, hlt⟩ := ih [] (by
        rw [List.length_append, List.length_nil]; push_cast; omega) hq
      rw [List.length_nil] at hout hlt
      refine ⟨cString (line ++ [13]) ++ out, by rw [List.append_assoc], ?_, fun h0 => ?_⟩
      · rw [List.length_append]
        omega
      · have hne : (0 : BYTE) ≠ ch := by
          rintro rfl
          exact absurd h1 (by decide)
        rw [List.length_append]
        rcases List.mem_append.1 h0 with hline | hrest
        · have hshort := length_cString_lt (List.mem_append_left [13] hline)
          omega
        · have hshort := hlt ((List.mem_cons.1 hrest).resolve_left hne)
          omega
    · have hlen : (line ++ [ch]).length = line.length + 1 := by simp
      obtain ⟨out, rfl, hout, hlt⟩ := ih (line ++ [ch]) (by rw [hlen]; push_cast; omega) hq
      rw [hlen] at hout hlt
      refine ⟨out, rfl, by omega, fun h0 => ?_⟩
      have hshort := hlt (by simpa using h0)
      omega

/-- With a NUL in the result the packet is shorter than was announced. -/
theorem sendShellResult_short (h : Valid q) {result : List BYTE}
    (hn : (q.count : ℤ) + result.length + 34 < queueSize) (h0 : (0 : BYTE) ∈ result) {q' : Queue}
    (hq : sendShellResult q result = .ok q') : q'.count < q.count + result.length + 34 := by
  have h1 : resultHeaderText.length = 24 := length_bytes _
  have h2 : (bytes "\n").length = 1 := length_bytes _
  have hlf : ∀ n, (front textCommand n).length = 6 := fun _ => rfl
  have hstart : startBuildDataPacket q (result.length + resultHeaderText.length + 1) textCommand =
      (true, (front textCommand (result.length + resultHeaderText.length + 1)).foldl storeByte q) := by
    have hfit : Fits q (result.length + resultHeaderText.length + 1 + 9) := by
      unfold Fits
      rw [h1]
      push_cast
      omega
    rw [h.startBuild (by omega), if_pos ((h.fits (by omega)).2 hfit)]
  simp only [sendShellResult, hstart] at hq
  obtain ⟨q₁, hloop, hq⟩ := bind_eq_ok.1 hq
  rw [addData_after h (by rw [hlf, h1]; push_cast; omega)] at hloop
  obtain ⟨out, rfl, -, hlt⟩ := shellResult_writes h result [] (by
    rw [List.length_append, hlf, h1, List.length_nil]; push_cast; omega) hloop
  have hshort := hlt h0
  rw [List.length_nil, Nat.zero_add] at hshort
  cases hq
  rw [addData_after h, finishBuildDataPacketAndSend, h.write_after, h.count_foldl]
  all_goals
    simp only [List.length_append, hlf, h1, h2, minusMinusMinus, List.length_cons, List.length_nil]
    push_cast
    omega

end

/-! ## The command -/

/-- The result goes out as one packet: the header, the lines with a carriage
    return for each newline, and a newline. -/
def FaithfulResult (env : Env) (s : Server) : Prop :=
  ∃ s', commandShellexec env s = .ok (true, s') ∧
    s'.outQueue.unread =
      s.outQueue.unread ++ encode textCommand (resultText (shellOutput env s))

section
variable {env : Env} {s : Server}

/-- The result is sent, into a queue with space for it. -/
theorem commandShellexec_sends (hout : Valid s.outQueue) (hread : ResultRead env s)
    (hset : env.fseekSet = true)
    (hspace : (s.outQueue.count : ℤ) + (shellOutput env s).length + 34 < queueSize) : ∃ w : World,
    commandShellexec env s = do
      let q ← sendShellResult s.outQueue (shellOutput env s)
      return (true, { s with
        outQueue := q
        inQueue := (getAllCommandParamsText s.inQueue maxShellLineLength).2.2
        world := w }) := by
  obtain ⟨result, v, w, -, hresult, -, -, -, hrun⟩ := shellexec_result hread
  obtain rfl := hresult hset
  have hfit : Fits s.outQueue ((shellOutput env s).length + 25) := by
    unfold Fits
    omega
  exact ⟨w, (hrun s.outQueue).trans (if_pos ((hout.fits (by omega)).2 hfit))⟩

theorem FaithfulResult.linesFit (hout : Valid s.outQueue) (hread : ResultRead env s)
    (hset : env.fseekSet = true)
    (hspace : (s.outQueue.count : ℤ) + (shellOutput env s).length + 34 < queueSize)
    (hf : FaithfulResult env s) : LinesFit (shellOutput env s) := by
  obtain ⟨w, hrun⟩ := commandShellexec_sends hout hread hset hspace
  obtain ⟨s', hs', -⟩ := hf
  rw [hrun] at hs'
  obtain ⟨q', hq', -⟩ := bind_eq_ok.1 hs'
  obtain ⟨q₁, hloop, -⟩ := bind_eq_ok.1 hq'
  exact ((shellResult_ok_iff _ _ _).1 ⟨q₁, hloop⟩).2

theorem FaithfulResult.noNul (hout : Valid s.outQueue) (hread : ResultRead env s)
    (hset : env.fseekSet = true)
    (hspace : (s.outQueue.count : ℤ) + (shellOutput env s).length + 34 < queueSize)
    (hf : FaithfulResult env s) : (0 : BYTE) ∉ shellOutput env s := by
  intro h0
  obtain ⟨w, hrun⟩ := commandShellexec_sends hout hread hset hspace
  obtain ⟨s', hs', hu⟩ := hf
  rw [hrun] at hs'
  obtain ⟨q', hq', hs'⟩ := bind_eq_ok.1 hs'
  cases hs'
  have hshort := sendShellResult_short hout hspace h0 hq'
  have hlen := congrArg List.length hu
  rw [List.length_append, length_encode, resultText_length, length_unread, length_unread] at hlen
  dsimp only at hlen
  omega

theorem faithfulResult_of_fit (hout : Valid s.outQueue) (hread : ResultRead env s)
    (hset : env.fseekSet = true)
    (hspace : (s.outQueue.count : ℤ) + (shellOutput env s).length + 34 < queueSize)
    (h0 : (0 : BYTE) ∉ shellOutput env s) (hl : LinesFit (shellOutput env s)) :
    FaithfulResult env s := by
  obtain ⟨w, hrun⟩ := commandShellexec_sends hout hread hset hspace
  obtain ⟨q₁, hloop⟩ := (shellResult_ok_iff (shellOutput env s) [] (addDataToPacket
    (startBuildDataPacket s.outQueue ((shellOutput env s).length + resultHeaderText.length + 1)
      textCommand).2 resultHeaderText)).2 ⟨hl.first, hl⟩
  obtain ⟨q', hq'⟩ : ∃ q', sendShellResult s.outQueue (shellOutput env s) = .ok q' :=
    ⟨_, bind_eq_ok.2 ⟨q₁, hloop, rfl⟩⟩
  have hfit : Fits s.outQueue ((shellOutput env s).length + 34) := by
    unfold Fits
    omega
  refine ⟨{ s with
    outQueue := q'
    inQueue := (getAllCommandParamsText s.inQueue maxShellLineLength).2.2
    world := w }, by rw [hrun, hq']; rfl, ?_⟩
  dsimp only
  rw [sendShellResult_eq hout hfit h0 hq']
  have hemit : Valid (emit s.outQueue textCommand (resultText (shellOutput env s))) ∧ _ :=
    hout.emit _ (by rw [resultText_length]; push_cast; omega)
  exact hemit.2

end

/-- **The result of a shell command is packed faithfully** exactly if it has no
    NUL and its lines fit into the line buffer. -/
theorem shellResult_faithful_iff (env : Env) (s : Server) (hout : Valid s.outQueue)
    (hread : ResultRead env s) (hset : env.fseekSet = true)
    (hspace : numberFreeBytesInQueueToWriteToo s.outQueue > (shellOutput env s).length + 34) :
    FaithfulResult env s ↔ (0 : BYTE) ∉ shellOutput env s ∧ LinesFit (shellOutput env s) := by
  rw [hout.free] at hspace
  have hfree : (s.outQueue.count : ℤ) + (shellOutput env s).length + 34 < queueSize := by omega
  constructor
  · exact fun hf => ⟨hf.noNul hout hread hset hfree, hf.linesFit hout hread hset hfree⟩
  · exact fun ⟨h0, hl⟩ => faithfulResult_of_fit hout hread hset hfree h0 hl

theorem shellPacket_at :
    AtPacket (queueOf (shellPacket ++ [])) binaryCommand [12, 120, 10] [] :=
  atPacket_queueOf (by decide) (by decide) (by decide)

/-- A `SHELLEXEC` whose parameters are next. -/
def shellServer : Server := atParams (serverOf (shellPacket ++ [])) 7

theorem shellServer_reads (text : List BYTE) (hl : text.length ≤ 32767) :
    Valid shellServer.outQueue ∧ ResultRead (printing text) shellServer ∧
      shellOutput (printing text) shellServer = text :=
  ⟨queueOf_valid (by decide), shell_prints (queueOf_valid (by decide)).toInRange
    shellPacket_at hl⟩

/-- An instance: two lines, the second without an end. -/
theorem shellResult_faithful_hi :
    let env := printing (bytes "hi\nthere")
    FaithfulResult env shellServer ↔
      (0 : BYTE) ∉ shellOutput env shellServer ∧ LinesFit (shellOutput env shellServer) := by
  obtain ⟨hv, hread, htext⟩ := shellServer_reads (bytes "hi\nthere") (by decide)
  exact shellResult_faithful_iff _ _ hv hread rfl (by rw [htext]; decide)

/-- A NUL in the first line and a line of 300 bytes: neither is packed as it is. -/
theorem shellResult_unfaithful :
    ¬ FaithfulResult (printing [65, 0, 66, 10]) shellServer ∧
      ¬ FaithfulResult (printing (List.replicate 300 65 ++ [10])) shellServer := by
  have hempty : (shellServer.outQueue.count : ℤ) = 0 := by decide
  constructor
  · intro hf
    obtain ⟨hv, hread, htext⟩ := shellServer_reads [65, 0, 66, 10] (by decide)
    have h0 := hf.noNul hv hread rfl (by rw [htext, hempty]; decide)
    rw [htext] at h0
    exact h0 (by decide)
  · intro hf
    have hlen : (List.replicate 300 65 ++ [10] : List BYTE).length = 301 := by
      rw [List.length_append, List.length_replicate]
      rfl
    obtain ⟨hv, hread, htext⟩ := shellServer_reads (List.replicate 300 65 ++ [10]) (by omega)
    have hl := hf.linesFit hv hread rfl (by rw [htext, hempty, hlen]; decide)
    rw [htext] at hl
    have hroom := hl [] (List.replicate 300 65) [10] rfl fun b hb => by
      rw [List.eq_of_mem_replicate hb]
      rfl
    rw [List.length_replicate, lineRoom_cons] at hroom
    omega

end CpcLink
