/-
  Does the loader start the program that was sent?

  Bytes arrive for one who looks whether there is a byte before each one is taken
  (`Arrives`).  The loader takes each of them once, puts the program where it belongs and
  goes on at its entry (`loader_runs`), as long as neither the program nor the stack comes
  where the loader is.
-/
import Mathlib.Data.Fin.Tuple.Basic
import CpcLink.Bootloader

namespace CpcLink.Bootloader

open Z80 Stored

def statusReg : UInt16 := 0xfd81
def dataReg : UInt16 := 0xfd80

/-- The FIFO has a byte at the `k`-th read. -/
def Dor (bus : Bus) (k : ℕ) : Prop := bus k statusReg &&& 1 ≠ 0

/-- From the `k`-th read on these bytes come in for one who looks until there is a byte
    and then takes it; the last one is taken before the `k'`-th read. -/
inductive Arrives (bus : Bus) : ℕ → List BYTE → ℕ → Prop
  | nothing (k : ℕ) : Arrives bus k [] k
  | waits {k k' : ℕ} {v : BYTE} {data : List BYTE} : ¬ Dor bus k →
      Arrives bus (k + 1) (v :: data) k' → Arrives bus k (v :: data) k'
  | taken {k k' : ℕ} {data : List BYTE} : Dor bus k → Arrives bus (k + 2) data k' →
      Arrives bus k (bus (k + 1) dataReg :: data) k'

/-- The bytes are those of the listing. -/
theorem listing_decodes {mem : UInt16 → BYTE} (h : Holds mem origin loader) :
    ∀ l ∈ listing, decode mem l.1 = some l.2 := by
  have hbytes : ∀ i : Fin 45, mem (origin + UInt16.ofNat i) = loader[i] := fun i => h i i.isLt
  simp [Fin.forall_fin_succ, origin, loader] at hbytes
  have hbc : word 0xfd 0x81 = 0xfd81 := word_eq rfl
  have hgethl : word 0 0x97 = gethl := word_eq rfl
  have hgetbyte : word 0 0xa0 = getbyte := word_eq rfl
  simp only [listing, List.forall_mem_cons, decode, wordAt, relative, UInt16.reduceAdd, hbytes, hbc,
    hgethl, hgetbyte]
  simp [onemore, getbyte]

theorem word_statusReg : word 0xfd 0x81 = statusReg := word_eq rfl
theorem word_dataReg : word 0xfd 0x80 = dataReg := word_eq rfl

section
variable {bus : Bus} {m : Machine} {k k' : ℕ} {v : BYTE} {data : List BYTE}

/-- A line of the listing: an address, the instruction there, and the next address. -/
theorem line (hcode : Holds m.core.mem origin loader) (n : ℕ) {pc next : UInt16} {i : Coded}
    (h : listing[n]? = some (pc, i, next)) : decode m.core.mem pc = some (i, next) :=
  listing_decodes hcode _ (List.mem_of_getElem? h)

/-! ## One byte -/

/-- The state after a look at the FIFO. -/
def looked (bus : Bus) (core : State) : State := { core with
  a := bus core.reads statusReg >>> 1 ||| if core.cy then 128 else 0
  z := bus core.reads statusReg == 0
  cy := bus core.reads statusReg &&& 1 != 0
  ins := core.ins ++ [(statusReg, bus core.reads statusReg)]
  reads := core.reads + 1 }

theorem look_runs {m' : Machine} (hcode : Holds m.core.mem origin loader) (hb : m.core.b = 0xfd)
    (hc : m.core.c = 0x81)
    (h : Runs bus ((⟨looked bus m.core, m.sp⟩ : Machine).goto 163) m') :
    Runs bus (m.goto getbyte) m' := by
  have hport : word m.core.b m.core.c = statusReg := by rw [hb, hc, word_statusReg]
  refine .plain (line hcode 19 rfl) rfl (.plain (line (m := ⟨_, m.sp⟩) hcode 20 rfl) rfl ?_)
  simp only [State.setRotated, State.setResult, State.setReg, State.input, State.pair, hport]
  exact h

/-- What is on the data register is taken. -/
theorem take_runs (bus : Bus) (hcode : Holds m.core.mem origin loader) (hb : m.core.b = 0xfd)
    (hc : m.core.c = 0x81) (hcy : m.core.cy = true) :
    Runs bus (m.goto 163) ((⟨{ m.core with
      a := bus m.core.reads dataReg, z := false
      ins := m.core.ins ++ [(dataReg, bus m.core.reads dataReg)], reads := m.core.reads + 1 },
      m.sp + 2⟩ : Machine).goto m.top) := by
  have hport : word m.core.b 0x80 = dataReg := by rw [hb, word_dataReg]
  refine .jrNc_next (line hcode 21 rfl) hcy (.plain (line hcode 22 rfl) rfl
    (.plain (line (m := ⟨_, m.sp⟩) hcode 23 rfl) rfl (.plain (line (m := ⟨_, m.sp⟩) hcode 24 rfl) rfl
    (.ret (line (m := ⟨_, m.sp⟩) hcode 25 rfl) (.of_eq ?_)))))
  simp [hport, hc, Machine.drop, Machine.goto, Machine.top, State.goto]

/-- `getbyte` takes the byte that comes next, and returns. -/
theorem getbyte_runs (harr : Arrives bus k (v :: data) k') (hk : m.core.reads = k)
    (hcode : Holds m.core.mem origin loader) (hb : m.core.b = 0xfd) (hc : m.core.c = 0x81) :
    ∃ z cy ins j, Runs bus (m.goto getbyte)
        ((⟨{ m.core with a := v, z := z, cy := cy, ins := ins, reads := j }, m.sp + 2⟩ :
          Machine).goto m.top) ∧ Arrives bus j data k' := by
  generalize hdata : v :: data = stream at harr
  induction harr generalizing m with
  | nothing => cases hdata
  | @waits k k' v' data' hnone _ ih =>
    subst hk
    have hzero : (bus m.core.reads statusReg &&& 1 != 0) = false := by
      rw [bne_eq_false_iff_eq]
      exact not_not.1 hnone
    obtain ⟨z, cy, ins, j, hruns, hrest⟩ :=
      @ih ⟨looked bus m.core, m.sp⟩ rfl hcode hb hc hdata
    exact ⟨z, cy, ins, j, look_runs hcode hb hc (.jrNc_taken (line hcode 21 rfl) hzero hruns), hrest⟩
  | @taken k k' data' hdor harr _ =>
    subst hk
    cases hdata
    have hone : (bus m.core.reads statusReg &&& 1 != 0) = true := by
      rw [bne_iff_ne]
      exact hdor
    exact ⟨false, _, _, _, look_runs hcode hb hc
      (take_runs bus (m := ⟨looked bus m.core, m.sp⟩) hcode hb hc hone), harr⟩

/-! ## A word -/

/-- The loader is not where the stack grows. -/
def ClearOf (sp : UInt16) (depth : ℕ) : Prop :=
  Apart (sp - UInt16.ofNat depth) depth origin loader.length

instance (sp : UInt16) (depth : ℕ) : Decidable (ClearOf sp depth) :=
  inferInstanceAs (Decidable (Apart _ _ _ _))

/-- A return address on the stack leaves the loader. -/
theorem holds_push (hcode : Holds m.core.mem origin loader) (hclear : ClearOf m.sp 2) (w : UInt16) :
    Holds (m.push w).core.mem origin loader :=
  hcode.kept fun i hi => m.push_outside w (hclear i hi)

/-- `gethl` takes the word that comes next, the lower byte first. -/
theorem gethl_runs {lo hi : BYTE} (harr : Arrives bus m.core.reads (lo :: hi :: data) k')
    (hcode : Holds m.core.mem origin loader) (hb : m.core.b = 0xfd) (hc : m.core.c = 0x81)
    (hclear : ClearOf m.sp 2) :
    ∃ z cy ins j mem, Runs bus (m.goto gethl)
        ((⟨{ m.core with
          a := hi, h := hi, l := lo, z := z, cy := cy, ins := ins, reads := j, mem := mem },
          m.sp + 2⟩ : Machine).goto m.top) ∧ Arrives bus j data k' ∧
      ∀ address, Outside (m.sp - 2) 2 address → mem address = m.core.mem address := by
  have hsp : m.sp - 2 + 2 = m.sp := UInt16.sub_add_cancel _ _
  have hcode₁ := holds_push hcode hclear 154
  obtain ⟨z₁, cy₁, ins₁, j₁, hruns₁, harr₁⟩ := getbyte_runs (m := m.push 154) harr rfl hcode₁ hb hc
  rw [m.push_top, m.push_sp, hsp] at hruns₁
  -- the machine that has the lower byte in its register
  let m₁ : Machine := ⟨{ (m.push 154).core with
    a := lo, l := lo, z := z₁, cy := cy₁, ins := ins₁, reads := j₁ }, m.sp⟩
  have hcode₂ := holds_push (m := m₁) hcode₁ hclear 158
  obtain ⟨z₂, cy₂, ins₂, j₂, hruns₂, harr₂⟩ := getbyte_runs (m := m₁.push 158) harr₁ rfl hcode₂ hb hc
  rw [m₁.push_top, m₁.push_sp, show m₁.sp - 2 + 2 = m.sp from hsp] at hruns₂
  have hmem : ∀ address, Outside (m.sp - 2) 2 address →
      (m₁.push 158).core.mem address = m.core.mem address := fun address ha =>
    (m₁.push_outside 158 ha).trans (m.push_outside 154 ha)
  have htop : wordAt (m₁.push 158).core.mem m.sp = m.top := by
    have h₁ := m.wordAt_push_above 154 (i := 0) (by decide)
    have h₂ := m₁.wordAt_push_above 158 (i := 0) (by decide)
    rw [show UInt16.ofNat 0 = 0 from rfl, UInt16.add_zero] at h₁ h₂
    exact h₂.trans h₁
  refine ⟨z₂, cy₂, ins₂, j₂, (m₁.push 158).core.mem, ?_, harr₂, hmem⟩
  refine .call (line hcode 14 rfl) (hruns₁.trans (.plain (line (m := ⟨_, m.sp⟩) hcode₁ 15 rfl) rfl
    (.call (line (m := ⟨_, m.sp⟩) hcode₁ 16 rfl) (hruns₂.trans
    (.plain (line (m := ⟨_, m.sp⟩) hcode₂ 17 rfl) rfl (.ret (line (m := ⟨_, m.sp⟩) hcode₂ 18 rfl)
    (.of_eq ?_)))))))
  have hdrop : ∀ core : State, core.mem = (m₁.push 158).core.mem →
      (⟨core, m.sp⟩ : Machine).top = m.top := by
    intro core hcore
    rw [Machine.top, hcore]
    exact htop
  exact congrArg (Machine.goto _) (hdrop _ rfl)

/-- Four bytes below the stack pointer are two and two. -/
theorem outside_halves {sp address : UInt16} (h : Outside (sp - 4) 4 address) :
    Outside (sp - 2) 2 address ∧ Outside (sp - 2 - 2) 2 address := by
  have hupper : sp - 4 + 1 + 1 = sp - 2 := by
    rw [UInt16.sub_eq_add_neg, UInt16.sub_eq_add_neg, UInt16.add_assoc, UInt16.add_assoc]
    rfl
  have hlower : sp - 2 - 2 = sp - 4 := by
    rw [UInt16.sub_eq_add_neg, UInt16.sub_eq_add_neg, UInt16.sub_eq_add_neg, UInt16.add_assoc]
    rfl
  refine ⟨?_, ?_⟩
  · rw [← hupper]
    exact h.succ.succ
  · rw [hlower]
    exact h.mono (by decide)

/-- A word is taken by a call. -/
theorem word_runs {pc next : UInt16} {lo hi : BYTE}
    (hcall : decode m.core.mem pc = some (.call gethl, next))
    (harr : Arrives bus m.core.reads (lo :: hi :: data) k')
    (hcode : Holds m.core.mem origin loader) (hb : m.core.b = 0xfd) (hc : m.core.c = 0x81)
    (hclear : ClearOf m.sp 4) :
    ∃ m₁ : Machine, Runs bus (m.goto pc) (m₁.goto next) ∧ m₁.sp = m.sp ∧ m₁.core.b = 0xfd ∧
      m₁.core.c = 0x81 ∧ m₁.core.pair .de = m.core.pair .de ∧ m₁.core.pair .hl = word hi lo ∧
      Arrives bus m₁.core.reads data k' ∧ Holds m₁.core.mem origin loader ∧
      ∀ address, Outside (m.sp - 4) 4 address → m₁.core.mem address = m.core.mem address := by
  have hsp : m.sp - 2 + 2 = m.sp := UInt16.sub_add_cancel _ _
  have hcode₁ := holds_push hcode (fun i hi => (outside_halves (hclear i hi)).1) next
  obtain ⟨z, cy, ins, j, mem, hruns, hrest, hmem⟩ := gethl_runs (m := m.push next) harr hcode₁ hb hc
    fun i hi => (outside_halves (hclear i hi)).2
  rw [m.push_top, m.push_sp, hsp] at hruns
  have hkept : ∀ address, Outside (m.sp - 4) 4 address → mem address = m.core.mem address :=
    fun address ha => (hmem address (outside_halves ha).2).trans
      (m.push_outside next (outside_halves ha).1)
  exact ⟨_, .call hcall hruns, rfl, hb, hc, rfl, rfl, hrest,
    hcode.kept fun i hi => hkept _ (hclear i hi), hkept⟩

/-! ## The program -/

/-- The register pair is zero when both halves are. -/
theorem halves_zero (w : UInt16) : (high w ||| low w == 0) = (w == 0) := by
  rw [Bool.eq_iff_iff, beq_iff_eq, beq_iff_eq, UInt8.or_eq_zero_iff, ← UInt8.toNat_inj,
    ← UInt8.toNat_inj, ← UInt16.toNat_inj, toNat_high, toNat_low, UInt8.toNat_zero, UInt16.toNat_zero]
  omega

/-- One byte is copied. -/
theorem once_runs (harr : Arrives bus m.core.reads (v :: data) k')
    (hcode : Holds m.core.mem origin loader) (hb : m.core.b = 0xfd) (hc : m.core.c = 0x81)
    (hclear : ClearOf m.sp 2) (hdest : ∀ i < loader.length, origin + UInt16.ofNat i ≠ m.core.pair .hl) :
    ∃ m₁ : Machine, Runs bus (m.goto onemore) (m₁.goto 144) ∧ m₁.sp = m.sp ∧ m₁.core.b = 0xfd ∧
      m₁.core.c = 0x81 ∧ m₁.core.pair .hl = m.core.pair .hl + 1 ∧
      m₁.core.pair .de = m.core.pair .de - 1 ∧ m₁.core.z = (m.core.pair .de - 1 == 0) ∧
      Arrives bus m₁.core.reads data k' ∧ Holds m₁.core.mem origin loader ∧
      ∀ address, Outside (m.sp - 2) 2 address →
        m₁.core.mem address = Function.update m.core.mem (m.core.pair .hl) v address := by
  have hsp : m.sp - 2 + 2 = m.sp := UInt16.sub_add_cancel _ _
  have hcode₁ := holds_push hcode hclear 139
  obtain ⟨z, cy, ins, j, hruns, hrest⟩ := getbyte_runs (m := m.push 139) harr rfl hcode₁ hb hc
  rw [m.push_top, m.push_sp, hsp] at hruns
  have hcode₂ : Holds (Function.update (m.push 139).core.mem (m.core.pair .hl) v) origin loader :=
    hcode₁.kept fun i hi => Function.update_of_ne (hdest i hi) _ _
  refine ⟨_, .call (line hcode 4 rfl) (hruns.trans (.plain (line (m := ⟨_, m.sp⟩) hcode₁ 5 rfl) rfl
    (.plain (line (m := ⟨_, m.sp⟩) hcode₂ 6 rfl) rfl (.plain (line (m := ⟨_, m.sp⟩) hcode₂ 7 rfl) rfl
    (.plain (line (m := ⟨_, m.sp⟩) hcode₂ 8 rfl) rfl (.plain (line (m := ⟨_, m.sp⟩) hcode₂ 9 rfl) rfl
    .refl)))))), rfl, hb, hc, ?_, ?_, ?_, hrest, hcode₂, ?_⟩
  · exact word_high_low _
  · exact word_high_low _
  · exact halves_zero _
  · intro address ha
    change Function.update (m.push 139).core.mem (m.core.pair .hl) v address = _
    rw [Function.update_apply, Function.update_apply, m.push_outside 139 ha]

theorem storeFrom_congr {mem mem' : UInt16 → BYTE} {address : UInt16} (h : mem address = mem' address)
    (w : UInt16) (data : List BYTE) : storeFrom mem w data address = storeFrom mem' w data address := by
  induction data generalizing mem mem' w with
  | nil => exact h
  | cons v data ih =>
    refine ih ?_ (w + 1)
    rw [Function.update_apply, Function.update_apply, h]

/-- The whole program is copied; as many bytes as there are in it are counted down. -/
theorem copy_runs {payload : List BYTE} (hne : payload ≠ [])
    (harr : Arrives bus m.core.reads (payload ++ data) k')
    (hcount : (m.core.pair .de).toNat = payload.length)
    (hcode : Holds m.core.mem origin loader) (hb : m.core.b = 0xfd) (hc : m.core.c = 0x81)
    (hclear : ClearOf m.sp 2) (hdest : Apart (m.core.pair .hl) payload.length origin loader.length) :
    ∃ m' : Machine, Runs bus (m.goto onemore) (m'.goto 146) ∧ m'.sp = m.sp ∧ m'.core.b = 0xfd ∧
      m'.core.c = 0x81 ∧ Arrives bus m'.core.reads data k' ∧ Holds m'.core.mem origin loader ∧
      ∀ address, Outside (m.sp - 2) 2 address →
        m'.core.mem address = storeFrom m.core.mem (m.core.pair .hl) payload address := by
  induction payload generalizing m with
  | nil => exact absurd rfl hne
  | cons v payload ih =>
    rw [List.length_cons] at hdest hcount
    obtain ⟨m₁, hruns, hsp, hb₁, hc₁, hhl, hde, hz, harr₁, hcode₁, hmem⟩ :=
      once_runs (v := v) harr hcode hb hc hclear fun i hi => (hdest i hi).self
    have hnz : m.core.pair .de ≠ 0 := by
      intro h0
      rw [h0] at hcount
      cases hcount
    have hleft : (m.core.pair .de - 1).toNat = payload.length := by
      rw [toNat_word_sub_one hnz, hcount, Nat.add_sub_cancel]
    have hsame : ∀ address, Outside (m.sp - 2) 2 address →
        storeFrom m₁.core.mem (m₁.core.pair .hl) payload address =
          storeFrom m.core.mem (m.core.pair .hl) (v :: payload) address := by
      intro address ha
      rw [hhl]
      exact storeFrom_congr (hmem address ha) _ payload
    by_cases hlast : payload = []
    · subst hlast
      have hzero : m₁.core.z = true := by
        rw [hz, beq_iff_eq]
        exact UInt16.toNat_inj.1 hleft
      exact ⟨m₁, hruns.trans (.jrNz_next (line hcode₁ 10 rfl) hzero .refl), hsp, hb₁, hc₁, harr₁, hcode₁,
        hsame⟩
    · have hmore : m₁.core.z = false := by
        rw [hz, beq_eq_false_iff_ne]
        intro h0
        rw [h0] at hleft
        exact hlast (List.length_eq_zero_iff.1 hleft.symm)
      rw [← hsp] at hclear
      obtain ⟨m', hruns', hsp', hb', hc', harr', hcode', hmem'⟩ := ih hlast harr₁ (by rw [hde, hleft])
        hcode₁ hb₁ hc₁ hclear fun i hi => by
          rw [hhl]
          exact (hdest i hi).succ
      refine ⟨m', hruns.trans (.jrNz_taken (line hcode₁ 10 rfl) hmore hruns'), hsp'.trans hsp, hb', hc',
        harr', hcode', fun address ha => ?_⟩
      rw [hmem' address (by rw [hsp]; exact ha), hsame address ha]

/-- The loader starts the program that comes in. -/
theorem runs_program {payload : List BYTE} {lenLo lenHi addrLo addrHi entryLo entryHi : BYTE}
    (harr : Arrives bus m.core.reads
      ([lenLo, lenHi, addrLo, addrHi] ++ payload ++ [entryLo, entryHi]) k')
    (hlen : (word lenHi lenLo).toNat = payload.length) (hne : payload ≠ [])
    (hcode : Holds m.core.mem origin loader) (hclear : ClearOf m.sp 4)
    (hdest : Apart (word addrHi addrLo) payload.length origin loader.length) :
    ∃ m' : Machine, Runs bus (m.goto origin) (m'.goto (word entryHi entryLo)) ∧ m'.sp = m.sp ∧
      m'.core.reads = k' ∧ ∀ address, Outside (m.sp - 4) 4 address →
        m'.core.mem address = storeFrom m.core.mem (word addrHi addrLo) payload address := by
  -- the port, the length and the address
  let m₁ : Machine := ⟨{ m.core with b := high 0xfd81, c := low 0xfd81 }, m.sp⟩
  have hb₁ : m₁.core.b = 0xfd := high_eq rfl
  have hc₁ : m₁.core.c = 0x81 := low_eq rfl
  have harr₁ : Arrives bus m₁.core.reads
      (lenLo :: lenHi :: addrLo :: addrHi :: (payload ++ [entryLo, entryHi])) k' := harr
  obtain ⟨m₂, hruns₂, hsp₂, hb₂, hc₂, -, hhl₂, harr₂, hcode₂, hmem₂⟩ :=
    word_runs (m := m₁) (line hcode 1 rfl) harr₁ hcode hb₁ hc₁ hclear
  let m₃ : Machine := ⟨{ m₂.core with
    d := m₂.core.h, e := m₂.core.l, h := m₂.core.d, l := m₂.core.e }, m₂.sp⟩
  obtain ⟨m₄, hruns₄, hsp₄, hb₄, hc₄, hde₄, hhl₄, harr₄, hcode₄, hmem₄⟩ :=
    word_runs (m := m₃) (line hcode₂ 3 rfl) harr₂ hcode₂ hb₂ hc₂ (hsp₂ ▸ hclear)
  have hspall : m₄.sp = m.sp := hsp₄.trans hsp₂
  have hde : m₄.core.pair .de = word lenHi lenLo := hde₄.trans hhl₂
  -- the program
  obtain ⟨m₅, hruns₅, hsp₅, hb₅, hc₅, harr₅, hcode₅, hmem₅⟩ := copy_runs hne harr₄ (by rw [hde, hlen])
    hcode₄ hb₄ hc₄ (by rw [hspall]; exact fun i hi => (outside_halves (hclear i hi)).1)
    (by rw [hhl₄]; exact hdest)
  -- the entry
  have hspall' : m₅.sp = m.sp := hsp₅.trans hspall
  obtain ⟨m₆, hruns₆, hsp₆, -, -, -, hhl₆, harr₆, hcode₆, hmem₆⟩ :=
    word_runs (m := m₅) (line hcode₅ 11 rfl) harr₅ hcode₅ hb₅ hc₅ (hspall' ▸ hclear)
  have hspall'' : m₆.sp = m.sp := hsp₆.trans hspall'
  have hcode₇ := holds_push hcode₆ (by rw [hspall'']; exact fun i hi => (outside_halves (hclear i hi)).1)
    (m₆.core.pair .hl)
  have hreads : m₆.core.reads = k' := by
    cases harr₆
    rfl
  have htop : (m₆.push (m₆.core.pair .hl)).top = word entryHi entryLo :=
    (m₆.push_top _).trans hhl₆
  refine ⟨(m₆.push (m₆.core.pair .hl)).drop, .plain (line hcode 0 rfl) rfl (hruns₂.trans
    (.plain (line (m := ⟨_, m₂.sp⟩) hcode₂ 2 rfl) rfl (hruns₄.trans (hruns₅.trans (hruns₆.trans
    (.push (line hcode₆ 12 rfl) (.ret (line hcode₇ 13 rfl) (.of_eq ?_)))))))), ?_, hreads, ?_⟩
  · rw [htop]
  · rw [← hspall'']
    exact UInt16.sub_add_cancel _ _
  · intro address ha
    have hm₆ : (m₆.push (m₆.core.pair .hl)).core.mem address = m₆.core.mem address :=
      m₆.push_outside _ (by rw [hspall'']; exact (outside_halves ha).1)
    have hm₄ : m₄.core.mem address = m.core.mem address :=
      (hmem₄ address (by rw [show m₃.sp = m.sp from hsp₂]; exact ha)).trans (hmem₂ address ha)
    calc (m₆.push (m₆.core.pair .hl)).core.mem address
        = m₅.core.mem address := hm₆.trans (hmem₆ address (by rw [hspall']; exact ha))
      _ = storeFrom m₄.core.mem (m₄.core.pair .hl) payload address :=
          hmem₅ address (by rw [hspall]; exact (outside_halves ha).1)
      _ = storeFrom m.core.mem (word addrHi addrLo) payload address := by
          rw [hhl₄]
          exact storeFrom_congr hm₄ _ payload

/-- The line of BASIC puts the loader where it belongs. -/
theorem holds_poked {mem : UInt16 → BYTE} {flushed : List BYTE} (hlen : flushed.length = 16) :
    Holds (poked mem (flushed ++ loader)) origin loader := by
  have hall : Holds (poked mem (flushed ++ loader)) 110 (flushed ++ loader) := by
    refine holds_storeFrom ?_
    rw [List.length_append, hlen]
    decide
  have hplace : origin = 110 + UInt16.ofNat flushed.length := by
    rw [hlen]
    rfl
  rw [hplace]
  exact hall.behind

/-- **The line of BASIC and the loader start the program that comes in.**  Behind 16 bytes
    come the loader, the length of a program, its address, the program and its entry.
    Neither the program nor the four bytes below the stack pointer come where the loader
    is.  Then the loader takes these bytes and no more, and goes on at the entry with the
    stack it found; outside of those four bytes it has changed the memory by the program
    alone. -/
theorem line_boots {mem : UInt16 → BYTE} {flushed payload : List BYTE}
    {lenLo lenHi addrLo addrHi entryLo entryHi : BYTE} (hflushed : flushed.length = 16)
    (hmem : m.core.mem = poked mem (flushed ++ loader))
    (harr : Arrives bus m.core.reads
      ([lenLo, lenHi, addrLo, addrHi] ++ payload ++ [entryLo, entryHi]) k')
    (hlen : (word lenHi lenLo).toNat = payload.length) (hne : payload ≠ [])
    (hclear : ClearOf m.sp 4)
    (hdest : Apart (word addrHi addrLo) payload.length origin loader.length) :
    ∃ m' : Machine, Runs bus (m.goto origin) (m'.goto (word entryHi entryLo)) ∧ m'.sp = m.sp ∧
      m'.core.reads = k' ∧ ∀ address, Outside (m.sp - 4) 4 address →
        m'.core.mem address =
          storeFrom (poked mem (flushed ++ loader)) (word addrHi addrLo) payload address := by
  have hcode : Holds m.core.mem origin loader := by
    rw [hmem]
    exact holds_poked hflushed
  rw [← hmem]
  exact runs_program harr hlen hne hcode hclear hdest

end

/-- A `ret` at `0x4000`: its length, its address, itself, and the entry. -/
def sent : List BYTE := [1, 0, 0, 0x40, 0xc9, 0, 0x40]

/-- The FIFO always has a byte: the next one of these. -/
def delivering (data : List BYTE) : Bus := fun k port =>
  if port = statusReg then 1 else data.getD (k / 2) 0

theorem arrives_delivering (data : List BYTE) : Arrives (delivering data) 0 data (2 * data.length) := by
  have hdor : ∀ k, Dor (delivering data) k := fun k => by simp [Dor, delivering]
  -- the induction is on the bytes that are left behind the first `i`
  have hrest : ∀ rest i, data.drop i = rest → i ≤ data.length →
      Arrives (delivering data) (2 * i) rest (2 * data.length) := by
    intro rest
    induction rest with
    | nil =>
      intro i hdrop hi
      rw [le_antisymm hi (List.drop_eq_nil_iff.1 hdrop)]
      exact .nothing _
    | cons v rest ih =>
      intro i hdrop hi
      have hlt : i < data.length := by
        have := congrArg List.length hdrop
        rw [List.length_drop, List.length_cons] at this
        omega
      rw [List.drop_eq_getElem_cons hlt] at hdrop
      obtain ⟨hhead, htail⟩ := List.cons.inj hdrop
      have hv : v = delivering data (2 * i + 1) dataReg := by
        have hhalf : (2 * i + 1) / 2 = i := by omega
        rw [delivering, if_neg (by decide), hhalf, List.getD_eq_getElem?_getD,
          List.getElem?_eq_getElem hlt, Option.getD_some, hhead]
      rw [hv]
      exact .taken (hdor _) (ih (i + 1) htail hlt)
  exact hrest data 0 rfl (Nat.zero_le _)

/-- After the line of BASIC, with the stack below `0xc000`. -/
def afterLine : Machine where
  core := { a := 0, b := 0, c := 0, d := 0, e := 0, h := 0, l := 0, ix := 0, z := false, pc := 0
            stack := [], mem := poked (fun _ => 0) (List.replicate 16 0xe5 ++ loader), reads := 0
            outs := [] }
  sp := 0xc000

theorem line_boots_ret : ∃ m' : Machine, Runs (delivering sent) (afterLine.goto origin) (m'.goto (word 0x40 0)) ∧
    m'.sp = 0xc000 ∧ m'.core.reads = 14 ∧ ∀ address, Outside 0xbffc 4 address →
      m'.core.mem address = storeFrom (poked (fun _ => 0) (List.replicate 16 0xe5 ++ loader))
        (word 0x40 0) [0xc9] address := by
  refine line_boots (m := afterLine) (List.length_replicate ..) rfl (arrives_delivering sent) ?_
    (List.cons_ne_nil _ _) (by decide) ?_
  · rw [toNat_word]
    rfl
  · rw [word_eq (w := 0x4000) rfl]
    decide

end CpcLink.Bootloader
