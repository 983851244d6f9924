/-
  Do the strings of BASIC go through the FIFO as they are?

  A string is three bytes: its length, and where its bytes are.  `|FIFOGETS` of no
  bytes returns before it sets the length, so the string is what it was.
-/
import CpcLink.Proof.Rsx

namespace CpcLink.Fiforsx

open Z80

/-- The bytes of the string at an address. -/
def stringAt (mem : UInt16 → UInt8) (w : UInt16) : List UInt8 :=
  bytesFrom mem (wordAt mem (w + 1)) (mem w).toNat

/-- A reader that looks at the FIFO from the `k`-th read on, and takes a byte
    whenever there is one, gets these bytes. -/
inductive Delivers (bus : Bus) : ℕ → List UInt8 → Prop where
  | nil {k : ℕ} : Delivers bus k []
  | wait {k : ℕ} {data : List UInt8} : bus k fifoStatus &&& fifoDor = 0 →
      Delivers bus (k + 1) data → Delivers bus k data
  | byte {k : ℕ} {data : List UInt8} : bus k fifoStatus &&& fifoDor ≠ 0 →
      Delivers bus (k + 2) data → Delivers bus k (bus (k + 1) fifoData :: data)

/-- A command that takes exactly `n` bytes, and leaves them as the string at `w`.
    Whatever the flags are at any time, it has taken no more than that; and from a
    channel that delivers them it takes all of them, and returns. -/
structure Receives (outside : State → Option State) (entry : UInt16) (m : State)
    (address : UInt16) (stack : List UInt16) (w : UInt16) (n : ℕ) : Prop where
  part : ∀ bus m', RunsOutside program outside bus (m.goto entry) m' →
    ∃ taken, fromFifo m' = fromFifo m ++ taken ∧ taken.length ≤ n
  whole : ∀ bus data, Delivers bus m.reads data → n ≤ data.length →
    ∃ m', RunsOutside program outside bus (m.goto entry) m' ∧ m'.pc = address ∧ m'.stack = stack ∧
      toFifo m' = toFifo m ∧ fromFifo m' = fromFifo m ++ data.take n ∧
      (m'.mem w).toNat = n ∧ stringAt m'.mem w = data.take n

section
variable {bus : Bus} {outside : State → Option State} {m m' : State} {address pc : UInt16}
  {stack : List UInt16} {data : List UInt8}

@[simp] theorem and_ff (v : UInt8) : v &&& 0xff = v := UInt8.and_neg_one

/-- Behind the length there is the address of the bytes. -/
def fetch : List Instr :=
  [.incPair .hl, .ldHl .e, .incPair .hl, .ldHl .d, .exDeHl, .ldReg .e .a, .ldPair .bc fifoStatus]

/-- It is in `hl`, the length in `e`, and `bc` is the port of the flags. -/
def fetched (m : State) : State := { m with
  b := 0xFD, c := 0x81, d := high (m.pair .hl + 1 + 1), e := m.a
  h := m.mem (m.pair .hl + 1 + 1), l := m.mem (m.pair .hl + 1) }

theorem fetch_effects (m : State) : effects bus m fetch = some (fetched m) := by
  simp [effects, effect, fetch, fetched, fifoStatus, high_status, low_status]

/-! ## `FIFOPUTS` -/

/-- The byte at `hl` is sent, and `hl` goes up to the next one. -/
theorem putsRound_runs (hready : ReadyAgain bus) (hb : m.b = 0xFD) (hc : m.c = 0x81) : ∃ m₁ : State,
    Steps program bus (m.goto fps1) (m₁.goto 35) ∧ m₁.mem = m.mem ∧ m₁.stack = m.stack ∧
      m₁.pair .hl = m.pair .hl + 1 ∧ m₁.b = 0xFD ∧ m₁.c = 0x81 ∧ m₁.e = m.e - 1 ∧
      m₁.z = (m.e - 1 == 0) ∧ m₁.outs = m.outs ++ onFifo [m.mem (m.pair .hl)] := by
  obtain ⟨a, k, l, hlook⟩ := @look_runs bus m fps1 fps1 ⟨rfl, rfl, rfl, trivial⟩
    (fun _ _ _ => .refl) hready hb hc
  have hcode : CodeAt program 30 [.dec .c, .inc .b, .outi, .inc .c, .dec .e] :=
    ⟨rfl, rfl, rfl, rfl, rfl, trivial⟩
  have heff : effects bus { m with a := a, z := false, cy := false, reads := k, ins := l }
      [.dec .c, .inc .b, .outi, .inc .c, .dec .e] = some { m with
        a := a, e := m.e - 1, h := high (m.pair .hl + 1), l := low (m.pair .hl + 1)
        z := m.e - 1 == 0, cy := false, reads := k, ins := l
        outs := m.outs ++ onFifo [m.mem (m.pair .hl)] } := by
    simp [effects, effect, onFifo, hb, hc, word_data]
  exact ⟨_, hlook.trans (.block hcode heff .refl), rfl, rfl, word_high_low _, hb, hc, rfl, rfl, rfl⟩

/-- All bytes from `hl` on are sent. -/
theorem putsLoop_returns (outside : State → Option State) (hready : ReadyAgain bus)
    (hb : m.b = 0xFD) (hc : m.c = 0x81) {j : ℕ} (he : m.e.toNat = j + 1)
    (hs : m.stack = address :: stack) : Returns outside bus (m.goto fps1) m address stack
      (bytesFrom m.mem (m.pair .hl) (j + 1)) := by
  induction j generalizing m with
  | zero =>
    obtain ⟨m₁, hround, hmem, hstack, hhl, hb', hc', hleft, hz, houts⟩ := putsRound_runs hready hb hc
    have hend : Returns outside bus (m₁.goto 36) m₁ address stack [] := .ret rfl (hstack.trans hs)
    exact .steps (hround.trans (.jrNz_next rfl (hz.trans (counted_out he)) .refl))
      (.after (toFifo_append houts) hend)
  | succ j ih =>
    obtain ⟨m₁, hround, hmem, hstack, hhl, hb', hc', hleft, hz, houts⟩ := putsRound_runs hready hb hc
    obtain ⟨hleft', hz'⟩ := counted_down he
    have hrest := ih hb' hc' (by rw [hleft, hleft']) (hstack.trans hs)
    rw [hmem, hhl] at hrest
    exact .steps (hround.trans (.jrNz_taken rfl (hz.trans hz') .refl))
      (.after (toFifo_append houts) hrest)

/-- **What `FIFOPUTS` sends**: the bytes of the string. -/
theorem puts_returns (outside : State → Option State) (hready : ReadyAgain bus) (ha : m.a = 1)
    (hs : m.stack = address :: stack) : Returns outside bus (m.goto fifoPuts) m address stack
      (stringAt m.mem (wordAt m.mem m.ix)) := by
  have hcode : CodeAt program (fifoPuts + 1 + 1) [.ldIx .h 1, .ldIx .l 0, .ldHl .a, .and 0xff] :=
    ⟨rfl, rfl, rfl, rfl, trivial⟩
  have heff : effects bus (m.compare 1) [.ldIx .h 1, .ldIx .l 0, .ldHl .a, .and 0xff] = some { m with
      a := m.mem (wordAt m.mem m.ix), h := m.mem (m.ix + 1), l := m.mem m.ix
      z := m.mem (wordAt m.mem m.ix) == 0, cy := false } := by
    simp [effects, effect, wordAt]
  have hstart : Steps program bus (m.goto fifoPuts) _ :=
    .plain rfl rfl (.jrNz_next rfl (beq_iff_eq.2 ha) (.block hcode heff .refl))
  by_cases h0 : m.mem (wordAt m.mem m.ix) = 0
  · have hempty : stringAt m.mem (wordAt m.mem m.ix) = [] := by rw [stringAt, h0]; rfl
    rw [hempty]
    exact ⟨{ m with
      a := m.mem (wordAt m.mem m.ix), h := m.mem (m.ix + 1), l := m.mem m.ix
      z := m.mem (wordAt m.mem m.ix) == 0, cy := false, stack := stack },
      .of_steps (hstart.trans (.retZ_taken rfl (beq_iff_eq.2 h0) hs .refl)), rfl,
      (List.append_nil _).symm⟩
  · obtain ⟨j, hj⟩ := Nat.exists_eq_succ_of_ne_zero fun h => h0 (UInt8.toNat_inj.1 h)
    have hfetch : CodeAt program 20 fetch := ⟨rfl, rfl, rfl, rfl, rfl, rfl, rfl, trivial⟩
    have hloop := putsLoop_returns (m := fetched { m with
      a := m.mem (wordAt m.mem m.ix), h := m.mem (m.ix + 1), l := m.mem m.ix
      z := m.mem (wordAt m.mem m.ix) == 0, cy := false }) outside hready rfl rfl hj hs
    rw [stringAt, hj]
    exact .steps (hstart.trans (.retZ_next rfl (beq_eq_false_iff_ne.2 h0)
      (.block hfetch (fetch_effects _) .refl))) hloop

/-! ## `FIFOGETS` -/

theorem fromFifo_append {l : List (UInt16 × UInt8)} (h : m'.ins = m.ins ++ l) :
    fromFifo m' = fromFifo m ++ (l.filter fun i => i.1 = fifoData).map Prod.snd := by
  rw [fromFifo, readOn, h, List.filter_append, List.map_append, fromFifo, readOn]

/-- A look at the FIFO, whose flag comes into the carry. -/
theorem dor_effects (hb : m.b = 0xFD) (hc : m.c = 0x81) :
    effects bus m [.inPort .a, .rra] = some { m with
      a := bus m.reads fifoStatus >>> 1 ||| (if m.cy then 128 else 0)
      z := bus m.reads fifoStatus == 0, cy := bus m.reads fifoStatus &&& 1 != 0
      reads := m.reads + 1, ins := m.ins ++ [(fifoStatus, bus m.reads fifoStatus)] } := by
  simp [effects, effect, hb, hc, word_status]

theorem dor_code : CodeAt program fgs1 [.inPort .a, .rra] := ⟨rfl, rfl, trivial⟩

/-- There is no byte. -/
theorem getsWait_runs (hb : m.b = 0xFD) (hc : m.c = 0x81)
    (hwait : bus m.reads fifoStatus &&& fifoDor = 0) : ∃ m₁ : State,
    Steps program bus (m.goto fgs1) (m₁.goto fgs1) ∧ m₁.reads = m.reads + 1 ∧ m₁.b = 0xFD ∧
      m₁.c = 0x81 ∧ m₁.e = m.e ∧ m₁.stack = m.stack ∧ m₁.pair .hl = m.pair .hl ∧ m₁.mem = m.mem ∧
      m₁.outs = m.outs ∧ fromFifo m₁ = fromFifo m := by
  refine ⟨_, .block dor_code (dor_effects hb hc) (.jrNc_taken rfl ?_ .refl), rfl, hb, hc, rfl, rfl,
    rfl, rfl, rfl, (fromFifo_append rfl).trans (List.append_nil _)⟩
  exact bne_eq_false_iff_eq.2 hwait

/-- A byte comes to `hl`, which goes up to the next one. -/
theorem getsRound_runs (hb : m.b = 0xFD) (hc : m.c = 0x81)
    (hbyte : bus m.reads fifoStatus &&& fifoDor ≠ 0) : ∃ m₁ : State,
    Steps program bus (m.goto fgs1) (m₁.goto 84) ∧ m₁.reads = m.reads + 2 ∧ m₁.b = 0xFD ∧
      m₁.c = 0x81 ∧ m₁.e = m.e - 1 ∧ m₁.z = (m.e - 1 == 0) ∧ m₁.stack = m.stack ∧
      m₁.pair .hl = m.pair .hl + 1 ∧
      m₁.mem = Function.update m.mem (m.pair .hl) (bus (m.reads + 1) fifoData) ∧ m₁.outs = m.outs ∧
      fromFifo m₁ = fromFifo m ++ [bus (m.reads + 1) fifoData] := by
  have hcode : CodeAt program 79 [.dec .c, .ini, .inc .b, .inc .c, .dec .e] :=
    ⟨rfl, rfl, rfl, rfl, rfl, trivial⟩
  have heff : effects bus { m with
        a := bus m.reads fifoStatus >>> 1 ||| (if m.cy then 128 else 0)
        z := bus m.reads fifoStatus == 0, cy := bus m.reads fifoStatus &&& 1 != 0
        reads := m.reads + 1, ins := m.ins ++ [(fifoStatus, bus m.reads fifoStatus)] }
      [.dec .c, .ini, .inc .b, .inc .c, .dec .e] = some { m with
        a := bus m.reads fifoStatus >>> 1 ||| (if m.cy then 128 else 0), e := m.e - 1
        h := high (m.pair .hl + 1), l := low (m.pair .hl + 1), z := m.e - 1 == 0
        cy := bus m.reads fifoStatus &&& 1 != 0, reads := m.reads + 2
        mem := Function.update m.mem (m.pair .hl) (bus (m.reads + 1) fifoData)
        ins := m.ins ++ [(fifoStatus, bus m.reads fifoStatus),
          (fifoData, bus (m.reads + 1) fifoData)] } := by
    simp [effects, effect, hb, hc, word_data]
  refine ⟨_, .block dor_code (dor_effects hb hc) (.jrNc_next rfl ?_ (.block hcode heff .refl)), rfl,
    hb, hc, rfl, rfl, rfl, word_high_low _, rfl, rfl, ?_⟩
  · exact bne_iff_ne.2 hbyte
  · exact fromFifo_append (l := [(fifoStatus, _), (fifoData, _)]) rfl

/-- The bytes that the channel delivers are stored from `hl` on. -/
theorem getsLoop_runs {k : ℕ} (hd : Delivers bus k data) (hk : m.reads = k) (hb : m.b = 0xFD)
    (hc : m.c = 0x81) (he : m.e.toNat = data.length) (hne : data ≠ [])
    (hs : m.stack = address :: stack) : ∃ m' : State,
    Steps program bus (m.goto fgs1) (m'.goto address) ∧ m'.stack = stack ∧ m'.outs = m.outs ∧
      fromFifo m' = fromFifo m ++ data ∧ m'.mem = storeFrom m.mem (m.pair .hl) data := by
  induction hd generalizing m with
  | nil => exact absurd rfl hne
  | wait hwait _ ih =>
    subst hk
    obtain ⟨m₁, hround, hreads, hb', hc', hleft, hstack, hhl, hmem, houts, htaken⟩ :=
      getsWait_runs hb hc hwait
    obtain ⟨m', hsteps, hstack', houts', htaken', hmem'⟩ :=
      ih hreads hb' hc' (by rw [hleft, he]) hne (hstack.trans hs)
    exact ⟨m', hround.trans hsteps, hstack', houts'.trans houts, by rw [htaken', htaken],
      by rw [hmem', hmem, hhl]⟩
  | @byte k rest hbyte _ ih =>
    subst hk
    obtain ⟨m₁, hround, hreads, hb', hc', hleft, hz, hstack, hhl, hmem, houts, htaken⟩ :=
      getsRound_runs hb hc hbyte
    cases rest with
    | nil =>
      exact ⟨{ m₁ with stack := stack }, hround.trans (.jrNz_next rfl (hz.trans (counted_out he))
        (.ret rfl (hstack.trans hs) .refl)), rfl, houts, htaken, hmem⟩
    | cons v rest =>
      obtain ⟨hleft', hz'⟩ := counted_down he
      obtain ⟨m', hsteps, hstack', houts', htaken', hmem'⟩ :=
        ih hreads hb' hc' (by rw [hleft, hleft']; rfl) (List.cons_ne_nil _ _) (hstack.trans hs)
      refine ⟨m', hround.trans (.jrNz_taken rfl (hz.trans hz') hsteps), hstack', houts'.trans houts,
        ?_, ?_⟩
      · rw [htaken', htaken, List.append_assoc]
        rfl
      · rw [hmem', hmem, hhl]
        rfl

theorem count_code : CodeAt program (fifoGets + 1 + 1) [.ldIx .a 0, .and 0xff] := ⟨rfl, rfl, trivial⟩

/-- The number of bytes is looked at. -/
theorem count_effects (bus : Bus) (m : State) :
    effects bus (m.compare 2) [.ldIx .a 0, .and 0xff] = some { m with
      a := m.mem m.ix, z := m.mem m.ix == 0, cy := false } := by
  simp [effects, effect]

/-- No bytes: the length of the string is left as it is. -/
theorem gets_none (bus : Bus) (ha : m.a = 2) (h0 : m.mem m.ix = 0) (hs : m.stack = address :: stack) :
    ∃ m' : State, Steps program bus (m.goto fifoGets) (m'.goto address) ∧ m'.stack = stack ∧
      m'.outs = m.outs ∧ m'.ins = m.ins ∧ m'.mem = m.mem := by
  exact ⟨{ m with a := m.mem m.ix, z := m.mem m.ix == 0, cy := false, stack := stack },
    .plain rfl rfl (.jrNz_next rfl (beq_iff_eq.2 ha) (.block count_code (count_effects bus m)
      (.retZ_taken rfl (beq_iff_eq.2 h0) hs .refl))), rfl, rfl, rfl, rfl⟩

theorem wordAt_update (mem : UInt16 → UInt8) (w : UInt16) (v : UInt8) :
    wordAt (Function.update mem w v) (w + 1) = wordAt mem (w + 1) :=
  wordAt_kept fun i hi => Function.update_of_ne (outside_behind w (by decide : 2 < 65536) i hi).symm _ _

/-- **What `FIFOGETS` does** with the bytes that the channel delivers. -/
theorem gets_runs (ha : m.a = 2) (hn : m.mem m.ix ≠ 0) (hd : Delivers bus m.reads data)
    (hlength : (m.mem m.ix).toNat = data.length) {w : UInt16} (hw : wordAt m.mem (m.ix + 2) = w)
    (hs : m.stack = address :: stack) : ∃ m' : State,
    Steps program bus (m.goto fifoGets) (m'.goto address) ∧ m'.stack = stack ∧ m'.outs = m.outs ∧
      fromFifo m' = fromFifo m ++ data ∧
      m'.mem = storeFrom (Function.update m.mem w (m.mem m.ix)) (wordAt m.mem (w + 1)) data := by
  have hw' : word (m.mem (m.ix + 3)) (m.mem (m.ix + 2)) = w := by
    rw [← hw, wordAt, UInt16.add_assoc]
    rfl
  have hcode : CodeAt program 66 [.ldIx .h 3, .ldIx .l 2, .ldToHl .a] := ⟨rfl, rfl, rfl, trivial⟩
  have heff : effects bus { m with a := m.mem m.ix, z := m.mem m.ix == 0, cy := false }
      [.ldIx .h 3, .ldIx .l 2, .ldToHl .a] = some { m with
        a := m.mem m.ix, z := m.mem m.ix == 0, cy := false, h := m.mem (m.ix + 3)
        l := m.mem (m.ix + 2), mem := Function.update m.mem w (m.mem m.ix) } := by
    simp [effects, effect, hw']
  have hfetch : CodeAt program 69 fetch := ⟨rfl, rfl, rfl, rfl, rfl, rfl, rfl, trivial⟩
  obtain ⟨m', hsteps, hstack, houts, htaken, hmem⟩ := getsLoop_runs (m := fetched { m with
    a := m.mem m.ix, z := m.mem m.ix == 0, cy := false, h := m.mem (m.ix + 3), l := m.mem (m.ix + 2)
    mem := Function.update m.mem w (m.mem m.ix) }) hd rfl rfl rfl hlength
    (fun h => hn (UInt8.toNat_inj.1 (by rw [hlength, h]; rfl))) hs
  refine ⟨m', .plain rfl rfl (.jrNz_next rfl (beq_iff_eq.2 ha) (.block count_code (count_effects bus m)
    (.retZ_next rfl (beq_eq_false_iff_ne.2 hn) (.block hcode heff (.block hfetch (fetch_effects _)
      hsteps))))), hstack, houts, htaken, ?_⟩
  rw [hmem, ← wordAt_update m.mem w (m.mem m.ix), ← hw']
  rfl

/-- The string that is left. -/
theorem stringAt_stored {mem : UInt16 → UInt8} {w : UInt16} {n : UInt8}
    (hlength : n.toNat = data.length) (hapart : Apart (wordAt mem (w + 1)) n.toNat w 3) :
    storeFrom (Function.update mem w n) (wordAt mem (w + 1)) data w = n ∧
      stringAt (storeFrom (Function.update mem w n) (wordAt mem (w + 1)) data) w = data := by
  rw [hlength] at hapart
  have hfirst : storeFrom (Function.update mem w n) (wordAt mem (w + 1)) data w = n := by
    have h0 := hapart 0 (by decide)
    rw [show UInt16.ofNat 0 = 0 from rfl, UInt16.add_zero] at h0
    rw [storeFrom_outside h0, Function.update_self]
  have hplace : wordAt (storeFrom (Function.update mem w n) (wordAt mem (w + 1)) data) (w + 1) =
      wordAt mem (w + 1) := by
    refine (wordAt_kept fun i hi => storeFrom_outside ?_).trans (wordAt_update mem w n)
    rw [← add_ofNat_succ]
    exact hapart (i + 1) (Nat.succ_lt_succ hi)
  have hsmall : data.length ≤ 65536 := by
    rw [← hlength]
    exact n.toNat_lt.le.trans (by decide)
  refine ⟨hfirst, ?_⟩
  rw [stringAt, hfirst, hplace, hlength, bytesFrom_storeFrom hsmall]

/-! ## What a channel delivers -/

theorem Delivers.take {k : ℕ} (h : Delivers bus k data) (n : ℕ) : Delivers bus k (data.take n) := by
  induction h generalizing n with
  | nil => rw [List.take_nil]; exact .nil
  | wait hwait _ ih => exact .wait hwait (ih n)
  | byte hbyte _ ih =>
    cases n with
    | zero => exact .nil
    | succ n => exact .byte hbyte (ih n)

/-- Where there is always a byte in the end, there are as many as one wants. -/
theorem delivers_always {N : ℕ} (hflags : ∀ k ≥ N, bus k fifoStatus = 1) (n k : ℕ) :
    ∃ data, data.length = n ∧ Delivers bus k data := by
  have hbyte : ∀ k ≥ N, bus k fifoStatus &&& fifoDor ≠ 0 := by
    intro k hk
    rw [hflags k hk]
    decide
  induction n generalizing k with
  | zero => exact ⟨[], rfl, .nil⟩
  | succ n ih =>
    obtain ⟨d, hd⟩ : ∃ d, N ≤ k + d := ⟨N, Nat.le_add_left N k⟩
    induction d generalizing k with
    | zero =>
      obtain ⟨data, hlength, hdata⟩ := ih (k + 2)
      exact ⟨_, by rw [List.length_cons, hlength], .byte (hbyte k hd) hdata⟩
    | succ d ihd =>
      by_cases hnow : bus k fifoStatus &&& fifoDor = 0
      · obtain ⟨data, hlength, hdata⟩ := ihd (k + 1) (by omega)
        exact ⟨data, hlength, .wait hnow hdata⟩
      · obtain ⟨data, hlength, hdata⟩ := ih (k + 2)
        exact ⟨_, by rw [List.length_cons, hlength], .byte hnow hdata⟩

/-! ## Does it take what it should? -/

section
variable {w : UInt16}

/-- **A call of `FIFOGETS`**, and when it leaves the string that it should. -/
theorem gets_returns (ha : m.a = 2) (hd : Delivers bus m.reads data)
    (hlength : data.length = (m.mem m.ix).toNat) (hw : wordAt m.mem (m.ix + 2) = w)
    (hapart : Apart (wordAt m.mem (w + 1)) (m.mem m.ix).toNat w 3) (hs : m.stack = address :: stack) :
    ∃ m' : State, Steps program bus (m.goto fifoGets) (m'.goto address) ∧ m'.stack = stack ∧
      m'.outs = m.outs ∧ fromFifo m' = fromFifo m ++ data ∧
      ((m'.mem w).toNat = (m.mem m.ix).toNat ∧ stringAt m'.mem w = data ↔
        m.mem m.ix ≠ 0 ∨ m.mem w = 0) := by
  by_cases h0 : m.mem m.ix = 0
  · obtain ⟨m', hsteps, hstack, houts, hins, hmem⟩ := gets_none bus ha h0 hs
    obtain rfl : data = [] := List.eq_nil_of_length_eq_zero (by rw [hlength, h0]; rfl)
    refine ⟨m', hsteps, hstack, houts, ?_, ?_⟩
    · rw [fromFifo, readOn, hins, List.append_nil, fromFifo, readOn]
    · rw [hmem, h0]
      constructor
      · rintro ⟨hzero, -⟩
        exact .inr (UInt8.toNat_inj.1 hzero)
      · rintro (hne | hzero)
        · exact absurd rfl hne
        · rw [stringAt, hzero]
          exact ⟨rfl, rfl⟩
  · obtain ⟨m', hsteps, hstack, houts, htaken, hmem⟩ := gets_runs ha h0 hd hlength.symm hw hs
    obtain ⟨hfirst, hstring⟩ := stringAt_stored hlength.symm hapart
    refine ⟨m', hsteps, hstack, houts, htaken, iff_of_true ?_ (.inl h0)⟩
    rw [hmem, hfirst]
    exact ⟨rfl, hstring⟩

theorem receives_iff (hf : Firmware outside) (hcaller : Caller address) (ha : m.a = 2)
    (hw : wordAt m.mem (m.ix + 2) = w)
    (hapart : Apart (wordAt m.mem (w + 1)) (m.mem m.ix).toNat w 3) (hs : m.stack = address :: stack) :
    Receives outside fifoGets m address stack w (m.mem m.ix).toNat ↔
      m.mem m.ix ≠ 0 ∨ m.mem w = 0 := by
  constructor
  · intro h
    obtain ⟨bus, hflags, -⟩ := flags_after (fun _ _ => 0) 0 1
    obtain ⟨data, hlength, hd⟩ := delivers_always hflags (m.mem m.ix).toNat m.reads
    obtain ⟨m₁, hruns, hpc, -, -, -, hfirst, hstring⟩ := h.whole _ _ hd hlength.ge
    obtain ⟨m', hsteps, -, -, -, hiff⟩ := gets_returns ha hd hlength hw hapart hs
    obtain rfl : m₁ = m'.goto address := Driven.end_unique hruns (RunsOutside.of_steps hsteps)
      (returned_halts hf hcaller hpc) (returned_halts hf hcaller rfl)
    rw [List.take_of_length_le hlength.le] at hstring
    exact hiff.1 ⟨hfirst, hstring⟩
  · intro hwhen
    constructor
    · intro bus m₁ hruns
      -- from where the run is on, there is always a byte
      obtain ⟨bus', hlater, hagree⟩ := flags_after bus m₁.reads 1
      obtain ⟨data, hlength, hd⟩ := delivers_always hlater (m.mem m.ix).toNat m.reads
      obtain ⟨m', hsteps, -, -, htaken, -⟩ := gets_returns ha hd hlength hw hapart hs
      have hdriven := driven_fromFifo hf
      have hsame := hdriven.runs_local hruns hagree
      obtain ⟨taken, htaken₁⟩ := hdriven.runs_trace hsame
      have hpart := hdriven.runs_trace (Driven.runs_to_end hsame (RunsOutside.of_steps hsteps)
        (returned_halts hf hcaller rfl))
      rw [show fromFifo (m'.goto address) = fromFifo m' from rfl, htaken, ← htaken₁] at hpart
      exact ⟨taken, htaken₁.symm,
        ((List.prefix_append_right_inj _).1 hpart).length_le.trans hlength.le⟩
    · intro bus data hd hle
      have hlength := List.length_take_of_le hle
      obtain ⟨m', hsteps, hstack, houts, htaken, hiff⟩ :=
        gets_returns ha (hd.take _) hlength hw hapart hs
      obtain ⟨hfirst, hstring⟩ := hiff.2 hwhen
      have hput : toFifo (m'.goto address) = toFifo m := congrArg (List.filter _) houts
      exact ⟨_, .of_steps hsteps, rfl, hstack, hput, htaken, hfirst, hstring⟩

end

end

/-! ## From string to string -/

/-- A call with `k` parameters. -/
structure Called (m : State) (k : UInt8) (address : UInt16) (stack : List UInt16) : Prop where
  params : m.a = k
  stack : m.stack = address :: stack
  caller : Caller address

/-- `FIFOPUTS` sends the bytes of its string, `FIFOGETS` takes the bytes of its own,
    and if it is given those that were sent, and as many, the strings are equal. -/
structure StringsExact (outside : State → Option State) (mp mg : State) (address address' : UInt16)
    (stack stack' : List UInt16) (w w' : UInt16) : Prop where
  puts : Sends outside fifoPuts mp address stack (stringAt mp.mem w)
  gets : Receives outside fifoGets mg address' stack' w' (mg.mem mg.ix).toNat
  loopback : (stringAt mp.mem w).length = (mg.mem mg.ix).toNat →
    ∀ bus mp', RunsOutside program outside bus (mp.goto fifoPuts) mp' → mp'.pc = address →
    ∀ sent, toFifo mp' = toFifo mp ++ onFifo sent → ∀ bus', Delivers bus' mg.reads sent →
    ∃ mg', RunsOutside program outside bus' (mg.goto fifoGets) mg' ∧ mg'.pc = address' ∧
      stringAt mg'.mem w' = stringAt mp.mem w

section
variable {outside : State → Option State} {mp mg : State} {address address' w w' : UInt16}
  {stack stack' : List UInt16}

theorem puts_sends (hf : Firmware outside) (hc : Called mp 1 address stack)
    (hw : wordAt mp.mem mp.ix = w) : Sends outside fifoPuts mp address stack (stringAt mp.mem w) := by
  rw [← hw]
  exact .of_returns hf hc.caller fun _ hready => puts_returns outside hready hc.params hc.stack

/-- **When strings go through the FIFO as they are**: unless no bytes are asked for
    and there is already a string. -/
theorem strings_exact_iff (hf : Firmware outside) (hp : Called mp 1 address stack)
    (hw : wordAt mp.mem mp.ix = w) (hg : Called mg 2 address' stack')
    (hw' : wordAt mg.mem (mg.ix + 2) = w')
    (hapart : Apart (wordAt mg.mem (w' + 1)) (mg.mem mg.ix).toNat w' 3) :
    StringsExact outside mp mg address address' stack stack' w w' ↔
      mg.mem mg.ix ≠ 0 ∨ mg.mem w' = 0 := by
  have hputs := puts_sends hf hp hw
  have hgets := receives_iff hf hg.caller hg.params hw' hapart hg.stack
  refine ⟨fun h => hgets.1 h.gets, fun hwhen => ⟨hputs, hgets.2 hwhen, ?_⟩⟩
  intro hlength bus mp' hruns hpc sent hsent bus' hd
  rw [hputs.returned hf hp.caller hruns hpc, List.append_cancel_left_eq] at hsent
  obtain rfl := List.map_injective_iff.2 onFifo_injective hsent
  obtain ⟨mg', hruns', hpc', -, -, -, -, hstring⟩ := (hgets.2 hwhen).whole bus' _ hd hlength.ge
  rw [List.take_of_length_le hlength.le] at hstring
  exact ⟨mg', hruns', hpc', hstring⟩

end

/-- The parameters `n` and `@A$`, where the string is `X`. -/
def stringMemory (n : UInt8) (w : UInt16) : UInt8 :=
  if w = 0x4000 then n
  else if w = 0x4003 then 0x50
  else if w = 0x5000 then 1
  else if w = 0x5002 then 0x60
  else if w = 0x6000 then 88
  else 0

theorem stringMemory_words (n : UInt8) : wordAt (stringMemory n) 0x4002 = 0x5000 ∧
    wordAt (stringMemory n) (0x5000 + 1) = 0x6000 := by
  have hparam : wordAt (stringMemory n) 0x4002 = word 0x50 0 := rfl
  have hbytes : wordAt (stringMemory n) (0x5000 + 1) = word 0x60 0 := rfl
  rw [hparam, hbytes]
  exact ⟨word_eq rfl, word_eq rfl⟩

/-- The same for three bytes, and the string `XYZ`. -/
def wordMemory (w : UInt16) : UInt8 :=
  if w = 0x5000 then 3 else if w = 0x6001 then 89 else if w = 0x6002 then 90 else stringMemory 3 w

/-- The FIFO takes a byte at every third look. -/
def busyFifo : Bus := fun k _ => if k % 3 = 2 then fifoDir else 0

/-- A byte is there at every second look, first of all `X`. -/
def lateFifo : Bus := fun k port =>
  if port = fifoStatus then if k % 3 = 1 then fifoDor else 0 else UInt8.ofNat (88 + k / 3)

theorem lateFifo_delivers : Delivers lateFifo 0 [88, 89, 90] :=
  .wait (by decide) (.byte (by decide) (.wait (by decide) (.byte (by decide)
    (.wait (by decide) (.byte (by decide) .nil)))))

/-- `|FIFOPUTS,@A$` and `|FIFOGETS,@A$,3`, with a FIFO to wait for -/
theorem strings_exact_iff_three :
    StringsExact silent (callAt 1 0x4002 wordMemory) (callAt 2 0x4000 wordMemory) 0x8000 0x8000 [] []
      0x5000 0x5000 ∧
    (∃ m', RunsOutside program silent busyFifo ((callAt 1 0x4002 wordMemory).goto fifoPuts) m' ∧
      m'.pc = 0x8000 ∧ toFifo m' = onFifo [88, 89, 90]) ∧
    ∃ m', RunsOutside program silent lateFifo ((callAt 2 0x4000 wordMemory).goto fifoGets) m' ∧
      m'.pc = 0x8000 ∧ stringAt m'.mem 0x5000 = [88, 89, 90] := by
  have hcaller : Caller 0x8000 := ⟨rfl, by decide⟩
  have hword : wordAt wordMemory 0x4002 = 0x5000 := word_eq rfl
  have hplace : wordAt wordMemory (0x5000 + 1) = 0x6000 := word_eq rfl
  have hapart : Apart (wordAt wordMemory (0x5000 + 1)) 3 0x5000 3 := by
    rw [hplace]
    decide
  have hbytes : stringAt wordMemory 0x5000 = [88, 89, 90] := by
    rw [stringAt, hplace]
    decide
  have hputsCalled : Called (callAt 1 0x4002 wordMemory) 1 0x8000 [] := ⟨rfl, rfl, hcaller⟩
  have hgetsCalled : Called (callAt 2 0x4000 wordMemory) 2 0x8000 [] := ⟨rfl, rfl, hcaller⟩
  have hexact := (strings_exact_iff silent_firmware hputsCalled hword hgetsCalled hword
    hapart).2 (.inl (by decide))
  have hready : ReadyAgain busyFifo := fun k => ⟨3 * k + 2, by omega, by
    rw [Ready, busyFifo, if_pos (by omega)]
    decide⟩
  obtain ⟨mp', hputs, hpc, -, hsent⟩ := hexact.puts.whole busyFifo hready
  obtain ⟨mg', hgets, hpc', -, -, -, -, hstring⟩ :=
    hexact.gets.whole lateFifo _ lateFifo_delivers (by decide)
  exact ⟨hexact, ⟨mp', hputs, hpc, hsent.trans (congrArg onFifo hbytes)⟩, mg', hgets, hpc', hstring⟩

/-- `|FIFOGETS,@A$,0` leaves the string `X`. -/
theorem gets_none_keeps_string : ¬ StringsExact silent (callAt 1 0x4002 (stringMemory 0))
    (callAt 2 0x4000 (stringMemory 0)) 0x8000 0x8000 [] [] 0x5000 0x5000 := by
  intro h
  have hapart : Apart (wordAt (stringMemory 0) (0x5000 + 1)) 0 0x5000 3 :=
    fun _ _ i hi => absurd hi (Nat.not_lt_zero i)
  have hwhen := (receives_iff silent_firmware ⟨rfl, by decide⟩ rfl (stringMemory_words 0).1 hapart
    rfl).1 h.gets
  exact absurd hwhen (by decide)

end CpcLink.Fiforsx
