/-
  The names `get_command_text` accepts (command.c).

  A name is ended by the first space or newline behind its first byte, and has
  at most 29 bytes.  The bytes the loop copies are those of the body, and none
  of them but the first is a separator (`nameLoop_bytes`, `nameLoop_before`);
  hence the loop stops at the least place that ends a name, if there is one
  (`getCommandText_accepts`).
-/
import CpcLink.Proof.Containment

namespace CpcLink

/-! ## The grammar -/

/-- A name may end at the byte `i` of a body. -/
def NameEnds (body : List BYTE) (i : ℕ) : Prop :=
  1 ≤ i ∧ i ≤ min 29 (body.length - 1) ∧ ∃ b, body[i]? = some b ∧ (isSpace b ∨ isNewline b)

/-- A body in which a name may end. -/
def NamedBody (body : List BYTE) : Prop :=
  2 ≤ body.length ∧ body[0]? ≠ some 10 ∧ ∃ i, NameEnds body i

/-- What a name that ends at the byte `i` leaves: the command string and the
    queue behind the byte that ends it. -/
structure NameRead (q : Queue) (body : List BYTE) (i : ℕ) : Prop where
  string : (getCommandText q).2.1 = body.take i ++ List.replicate (maxCommandNameLength - i) 0
  length : (getCommandText q).2.1.length = maxCommandNameLength
  terminated : (getCommandText q).2.1[i]? = some 0
  queue : (getCommandText q).2.2 = incrementReadNextIndex q (6 + (i + 1) : ℕ)

theorem NameEnds.separator {body : List BYTE} {i : ℕ} (hi : NameEnds body i) (hl : i < body.length) :
    isSeparator body[i] := by
  obtain ⟨-, -, b, hb, hs⟩ := hi
  rw [List.getElem?_eq_getElem hl, Option.some.injEq] at hb
  rw [hb, isSeparator, Bool.or_eq_true]
  exact hs

section
variable {q : Queue} {ty : PacketType} {body rest : List BYTE}

theorem nameEnds_iff_peek (hp : AtPacket q ty body rest) {i : ℕ} :
    NameEnds body i ↔ 1 ≤ i ∧ i < 30 ∧ i < body.length ∧ isSeparator (q.peek (6 + i)) := by
  constructor
  · intro hi
    have hlt : i < body.length := by
      have := hi.1
      have := hi.2.1
      omega
    exact ⟨hi.1, by have := hi.2.1; omega, hlt, by rw [peek_body hp hlt]; exact hi.separator hlt⟩
  · rintro ⟨h1, h30, hlt, hs⟩
    rw [peek_body hp hlt, isSeparator, Bool.or_eq_true] at hs
    exact ⟨h1, by omega, body[i], List.getElem?_eq_getElem hlt, hs⟩

/-- A body long enough for a name: it is accepted exactly if a name ends in it,
    and the name read ends at the least such place. -/
theorem getCommandText_accepts (h : InRange q) (hp : AtPacket q ty body rest)
    (hlong : 2 ≤ body.length) (hhead : body.head? ≠ some 10) :
    ((getCommandText q).1 = true ↔ ∃ i, NameEnds body i) ∧
      ((getCommandText q).1 = true → ∃ i, IsLeast {i | NameEnds body i} i ∧ NameRead q body i) := by
  have hp6 : ∀ k, (incrementReadNextIndex q (6 : ℕ)).peek k = q.peek (6 + k) := h.peek_inc 6
  have hcases := nameLoop_cases body.length maxCommandNameLength 0 (h.inc (6 : ℕ))
  have hbytes := fun k hk =>
    nameLoop_bytes body.length maxCommandNameLength 0 (h.inc (6 : ℕ)) (k := k) hk
  have hbefore := fun k hk =>
    nameLoop_before body.length maxCommandNameLength 0 (h.inc (6 : ℕ)) (k := k) hk
  have heq := getCommandText_long h hp hlong hhead
  have hmax : maxCommandNameLength = 30 := rfl
  generalize commandNameLoop body.length maxCommandNameLength 0
    (incrementReadNextIndex q (6 : ℕ)) = r at hcases hbytes hbefore heq
  simp only [hp6] at hcases hbytes hbefore heq
  -- no name ends among the bytes copied
  have hleast : ∀ i, NameEnds body i → r.2.1.length ≤ i := by
    intro i hi
    by_contra hlt
    obtain ⟨h1, -, -, hs⟩ := (nameEnds_iff_peek hp).1 hi
    rw [hbefore i (by omega) (by omega)] at hs
    cases hs
  rcases hcases with ⟨hr1, hlt, hpos, hle, hsep, hq⟩ | ⟨hr1, hfull, -, -⟩
  · have hne : r.2.1.length ≠ body.length := by
      intro he
      rw [he, peek_end hp] at hsep
      exact absurd hsep (by decide)
    have hend : NameEnds body r.2.1.length :=
      (nameEnds_iff_peek hp).2 ⟨by omega, hlt, by omega, hsep⟩
    have hname : r.2.1 = body.take r.2.1.length := by
      refine List.ext_getElem (by rw [List.length_take]; omega) fun k hk hk' => ?_
      rw [hbytes k hk, peek_body hp (by omega), List.getElem_take]
    rw [if_neg (by simp [hr1])] at heq
    refine ⟨by rw [heq]; exact iff_of_true hr1 ⟨_, hend⟩, fun _ => ⟨_, ⟨hend, hleast⟩, ?_⟩⟩
    refine ⟨?_, ?_, ?_, ?_⟩
    · rw [heq, ← hname]
    · rw [heq, List.length_append, List.length_replicate]
      omega
    · rw [heq, List.getElem?_append_right le_rfl, Nat.sub_self,
        List.getElem?_replicate_of_lt (by omega)]
    · rw [heq, hq, h.inc_nat]
  · have hnone : ¬ ∃ i, NameEnds body i := by
      rintro ⟨i, hi⟩
      have := hleast i hi
      obtain ⟨-, h30, hlt, -⟩ := (nameEnds_iff_peek hp).1 hi
      omega
    have hbad : (getCommandText q).1 = false := by
      rw [heq]
      split <;> exact hr1
    exact ⟨by simp [hbad, hnone], fun ht => absurd (hbad.symm.trans ht) Bool.false_ne_true⟩

end

/-- **`get_command_text` accepts exactly the bodies in which a name ends.**  For
    every text packet at the read index, wherever that is in the array: the name
    read ends at the first separator behind the first byte, the command string
    is the name and zeros, and the read index is on the byte behind. -/
theorem getCommandText_grammar (q : Queue) (h : InRange q) (body rest : List BYTE)
    (hp : AtPacket q textCommand body rest) :
    ((getCommandText q).1 = true ↔ NamedBody body) ∧
      ((getCommandText q).1 = true → ∃ i, IsLeast {i | NameEnds body i} i ∧ NameRead q body i) := by
  by_cases hshort : body.length ≤ 1 ∨ body.head? = some 10
  · have hbad := (getCommandText_short h hp hshort).1
    have hno : ¬ NamedBody body := by
      rintro ⟨hl, hnl, -⟩
      rcases hshort with hs | hs
      · omega
      · exact hnl (by rw [← hs, List.head?_eq_getElem?])
    rw [hbad]
    exact ⟨iff_of_false Bool.false_ne_true hno, fun hf => by cases hf⟩
  · obtain ⟨hlong, hhead⟩ := not_or.1 hshort
    obtain ⟨hiff, hread⟩ := getCommandText_accepts h hp (by omega) hhead
    rw [List.head?_eq_getElem?] at hhead
    exact ⟨hiff.trans ⟨fun hex => ⟨by omega, hhead, hex⟩, fun hn => hn.2.2⟩, hread⟩

/-- An instance: a name with a parameter behind it, in front of another packet. -/
theorem getCommandText_help :
    let body := bytes "HELP PING\n"
    let q := queueOf (textPacket "HELP PING\n" ++ [43, 43, 43])
    ((getCommandText q).1 = true ↔ NamedBody body) ∧
      ((getCommandText q).1 = true → ∃ i, IsLeast {i | NameEnds body i} i ∧ NameRead q body i) :=
  getCommandText_grammar _ (queueOf_valid (by decide)).toInRange _ [43, 43, 43]
    (atPacket_text "HELP PING\n" [43, 43, 43] (by decide) (by decide))

end CpcLink
