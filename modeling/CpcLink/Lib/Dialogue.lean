/-
  A client and a server that take turns.

  The client is a program of calls: it says something, hears something, or is done.  The
  server takes in what it is told, works, and gives out what it has to say.  What was said
  is under way for a while, in both directions, and everybody acts whenever they like.

  When the two are alone and nothing is under way, the client says a request, the server
  works on it, and the client hears the answer.  If a part of a request leaves the server
  waiting, then whatever the order of the acts is, nothing else happens (`refines`).
-/
import CpcLink.Lib.Reach
import Mathlib.Data.List.Infix

/-- What a program says and hears. -/
inductive Talk (α ρ : Type*)
  | say (a : α) (next : Talk α ρ)
  | hear (next : α → Talk α ρ)
  | done (result : ρ)

namespace Talk

variable {α ρ : Type*}

/-- It says these first. -/
def sayAll : List α → Talk α ρ → Talk α ρ
  | [], t => t
  | a :: as, t => .say a (sayAll as t)

@[simp] theorem sayAll_cons (a : α) (as : List α) (t : Talk α ρ) :
    sayAll (a :: as) t = .say a (sayAll as t) := rfl

theorem sayAll_append (as bs : List α) (t : Talk α ρ) : sayAll (as ++ bs) t = sayAll as (sayAll bs t) := by
  induction as with
  | nil => rfl
  | cons a as ih => rw [List.cons_append, sayAll_cons, sayAll_cons, ih]

/-- What is left of it when it has heard these. -/
inductive Hears : Talk α ρ → List α → Talk α ρ → Prop
  | nothing (t : Talk α ρ) : Hears t [] t
  | more {next : α → Talk α ρ} {a : α} {as : List α} {t : Talk α ρ} :
      Hears (next a) as t → Hears (.hear next) (a :: as) t

theorem Hears.append {t t' t'' : Talk α ρ} {as bs : List α} (h : Hears t as t')
    (h' : Hears t' bs t'') : Hears t (as ++ bs) t'' := by
  induction h with
  | nothing => exact h'
  | more _ ih => exact .more (ih h')

end Talk

open Talk

/-- A server, as far as it can be seen from outside.  What it keeps is all that matters of
    its state between the requests. -/
structure Responder (α σ κ ι : Type*) where
  inbox : σ → List α
  outbox : σ → List α
  keeps : σ → κ
  take : σ → α → σ
  /-- the first thing in the outbox is given out -/
  give : σ → σ
  /-- it is about to look at its inbox -/
  ready : σ → Prop
  /-- `none` if it breaks down -/
  work : σ → ι → Option σ

/-- A client, a server, and what is under way between them. -/
structure Dialogue (α ρ σ : Type*) where
  talk : Talk α ρ
  toServer : List α
  toClient : List α
  server : σ

inductive DialogueAct (ι : Type*)
  | say
  | hear
  | take
  | give
  | work (i : ι)

namespace Responder

variable {α ρ σ κ ι : Type*} (r : Responder α σ κ ι)

/-- Nothing changes that can be seen. -/
structure Same (s s' : σ) : Prop where
  inbox : r.inbox s' = r.inbox s
  outbox : r.outbox s' = r.outbox s
  keeps : r.keeps s' = r.keeps s

/-- The acts of the three. -/
inductive Act : Dialogue α ρ σ → DialogueAct ι → Dialogue α ρ σ → Prop
  | say {a : α} {next : Talk α ρ} {toServer toClient : List α} {s : σ} :
      Act ⟨.say a next, toServer, toClient, s⟩ .say ⟨next, toServer ++ [a], toClient, s⟩
  | hear {a : α} {next : α → Talk α ρ} {toServer toClient : List α} {s : σ} :
      Act ⟨.hear next, toServer, a :: toClient, s⟩ .hear ⟨next a, toServer, toClient, s⟩
  | take {t : Talk α ρ} {a : α} {toServer toClient : List α} {s : σ} :
      Act ⟨t, a :: toServer, toClient, s⟩ .take ⟨t, toServer, toClient, r.take s a⟩
  | give {t : Talk α ρ} {a : α} {rest toServer toClient : List α} {s : σ} : r.outbox s = a :: rest →
      Act ⟨t, toServer, toClient, s⟩ .give ⟨t, toServer, toClient ++ [a], r.give s⟩
  | work {t : Talk α ρ} {toServer toClient : List α} {s s' : σ} {i : ι} : r.work s i = some s' →
      Act ⟨t, toServer, toClient, s⟩ (.work i) ⟨t, toServer, toClient, s'⟩

/-- A server with an invariant, an inbox that is large enough for `size` things, and work that
    does nothing unasked. -/
structure Lawful (sound : σ → Prop) (size : ℕ) (ok : ι → Prop) : Prop where
  take : ∀ s a, sound s → (r.inbox s).length < size → sound (r.take s a) ∧
    r.inbox (r.take s a) = r.inbox s ++ [a] ∧ r.outbox (r.take s a) = r.outbox s ∧
    r.keeps (r.take s a) = r.keeps s
  give : ∀ s a rest, sound s → r.outbox s = a :: rest → sound (r.give s) ∧
    r.inbox (r.give s) = r.inbox s ∧ r.outbox (r.give s) = rest ∧ r.keeps (r.give s) = r.keeps s
  idle : ∀ s i, sound s → ok i → r.inbox s = [] →
    ∃ s', r.work s i = some s' ∧ sound s' ∧ r.Same s s'

section
variable (sound : σ → Prop) (size : ℕ) (ok : ι → Prop) (post : ρ → κ → Prop)

/-- The server has taken this in, and has nothing to say. -/
structure At (c : κ) (u : List α) (s : σ) : Prop where
  sound : sound s
  inbox : r.inbox s = u
  outbox : r.outbox s = []
  keeps : r.keeps s = c

/-- With the request before it, the server answers. -/
def Answers (c : κ) (req ans : List α) (c' : κ) : Prop :=
  ∃ s i s', r.At sound c req s ∧ ok i ∧ r.work s i = some s' ∧
    r.inbox s' = [] ∧ r.outbox s' = ans ∧ r.keeps s' = c'

/-- A request that can be made: a part of it leaves the server waiting, and it is served
    whole, when the server looks at it. -/
structure Asked (c : κ) (req : List α) : Prop where
  ne : req ≠ []
  fits : req.length ≤ size
  works : ∀ u s i, u <+: req → r.At sound c u s → ok i → ∃ s', r.work s i = some s' ∧ sound s' ∧
    (r.Same s s' ∨ u = req ∧ r.inbox s' = [])
  serves : ∀ s i, r.At sound c req s → ok i → r.ready s → ∃ s', r.work s i = some s' ∧ r.inbox s' = []

/-- A program that takes its turn: it makes requests, and hears the answers to the end
    before it goes on.  When it is done, `post` holds of its result and what the server keeps. -/
inductive InTurn : Talk α ρ → κ → Prop
  | done {v : ρ} {c : κ} : post v c → InTurn (.done v) c
  | turn {c : κ} (req : List α) (next : α → Talk α ρ) (resume : List α → Talk α ρ) :
      r.Asked sound size ok c req →
      (∀ ans c', r.Answers sound ok c req ans c' → Hears (.hear next) ans (resume ans)) →
      (∀ ans c', r.Answers sound ok c req ans c' → InTurn (resume ans) c') →
      InTurn (sayAll req (.hear next)) c

/-- Requests and answers, one after the other. -/
inductive Exchanges (t : Talk α ρ) (c : κ) : Talk α ρ → κ → Prop
  | none : Exchanges t c t c
  | next {t₁ t₂ : Talk α ρ} {c₁ c₂ : κ} {req ans : List α} : Exchanges t c (sayAll req t₁) c₁ →
      r.Answers sound ok c₁ req ans c₂ → Hears t₁ ans t₂ → Exchanges t c t₂ c₂

/-- A dialogue that is about to begin. -/
structure Begins (t : Talk α ρ) (c : κ) (d : Dialogue α ρ σ) : Prop where
  talk : d.talk = t
  toServer : d.toServer = []
  toClient : d.toClient = []
  server : r.At sound c [] d.server

/-- Where a dialogue of turns can be. -/
inductive Turns (t₀ : Talk α ρ) (c₀ : κ) : Dialogue α ρ σ → Prop
  /-- nothing is under way -/
  | idle {t : Talk α ρ} {c : κ} {s : σ} : r.Exchanges sound ok t₀ c₀ t c →
      r.InTurn sound size ok post t c → r.At sound c [] s → Turns t₀ c₀ ⟨t, [], [], s⟩
  /-- a part of a request was said -/
  | asking {c : κ} {req toSay toServer : List α} {next : α → Talk α ρ} {resume : List α → Talk α ρ}
      {s : σ} : r.Exchanges sound ok t₀ c₀ (sayAll req (.hear next)) c →
      r.Asked sound size ok c req →
      (∀ ans c', r.Answers sound ok c req ans c' →
        Hears (.hear next) ans (resume ans) ∧ r.InTurn sound size ok post (resume ans) c') →
      req = r.inbox s ++ toServer ++ toSay → r.At sound c (r.inbox s) s →
      Turns t₀ c₀ ⟨sayAll toSay (.hear next), toServer, [], s⟩
  /-- a part of the answer was heard -/
  | answering {t t₁ t₂ : Talk α ρ} {c₁ c : κ} {req ans got toClient : List α} {s : σ} :
      r.Exchanges sound ok t₀ c₀ (sayAll req t₁) c₁ → r.Answers sound ok c₁ req ans c →
      Hears t₁ ans t₂ → r.InTurn sound size ok post t₂ c → ans = got ++ (toClient ++ r.outbox s) →
      Hears t (toClient ++ r.outbox s) t₂ → toClient ++ r.outbox s ≠ [] → sound s →
      r.inbox s = [] → r.keeps s = c → Turns t₀ c₀ ⟨t, [], toClient, s⟩

end

variable {r} {sound : σ → Prop} {size : ℕ} {ok : ι → Prop} {post : ρ → κ → Prop} {t₀ : Talk α ρ}
  {c₀ : κ} {d d' : Dialogue α ρ σ}

theorem At.same {c : κ} {u : List α} {s s' : σ} (h : r.At sound c u s) (hs : sound s')
    (hsame : r.Same s s') : r.At sound c u s' :=
  ⟨hs, hsame.inbox.trans h.inbox, hsame.outbox.trans h.outbox, hsame.keeps.trans h.keeps⟩

theorem Turns.begins (ht : r.InTurn sound size ok post t₀ c₀) (h : r.Begins sound t₀ c₀ d) :
    r.Turns sound size ok post t₀ c₀ d := by
  obtain ⟨t, toServer, toClient, s⟩ := d
  obtain ⟨rfl, rfl, rfl, hat⟩ := h
  exact .idle .none ht hat

/-- A program that is about to hear something has no turn. -/
theorem not_inTurn_hear {next : α → Talk α ρ} {c : κ} : ¬ r.InTurn sound size ok post (.hear next) c := by
  generalize ht : Talk.hear next = t
  intro h
  cases h with
  | done => cases ht
  | turn req next' resume hasked =>
    cases req with
    | nil => exact hasked.ne rfl
    | cons b req => cases ht

/-- An answer says something. -/
theorem InTurn.hears_ne {next : α → Talk α ρ} {ans : List α} {t : Talk α ρ} {c : κ}
    (hturn : r.InTurn sound size ok post t c) (hhears : Hears (.hear next) ans t) : ans ≠ [] := by
  rintro rfl
  cases hhears
  exact not_inTurn_hear hturn

/-- The client says something. -/
theorem Turns.say {a : α} {next : Talk α ρ} {toServer toClient : List α} {s : σ}
    (h : r.Turns sound size ok post t₀ c₀ ⟨.say a next, toServer, toClient, s⟩) :
    r.Turns sound size ok post t₀ c₀ ⟨next, toServer ++ [a], toClient, s⟩ := by
  generalize ht : Talk.say a next = t at h
  cases h with
  | idle hex hturn hat =>
    cases hturn with
    | done => cases ht
    | turn req next' resume hasked hhears hrest =>
      cases req with
      | nil => exact absurd rfl hasked.ne
      | cons b req =>
        rw [sayAll_cons, Talk.say.injEq] at ht
        obtain ⟨rfl, rfl⟩ := ht
        have hreq : a :: req = r.inbox s ++ ([] ++ [a]) ++ req := by rw [hat.inbox]; rfl
        refine .asking hex hasked (fun ans c' h => ⟨hhears ans c' h, hrest ans c' h⟩) hreq ?_
        rw [hat.inbox]
        exact hat
  | @asking _ _ toSay _ _ _ _ hex hasked hans hreq hat =>
    cases toSay with
    | nil => cases ht
    | cons b toSay =>
      rw [sayAll_cons, Talk.say.injEq] at ht
      obtain ⟨rfl, rfl⟩ := ht
      refine .asking hex hasked hans ?_ hat
      rw [hreq]
      simp
  | answering _ _ _ _ _ hhears hne =>
    subst ht
    generalize toClient ++ r.outbox s = rest at hhears hne
    cases hhears
    exact absurd rfl hne

/-- The client hears something. -/
theorem Turns.hear {a : α} {next : α → Talk α ρ} {toServer toClient : List α} {s : σ}
    (h : r.Turns sound size ok post t₀ c₀ ⟨.hear next, toServer, a :: toClient, s⟩) :
    r.Turns sound size ok post t₀ c₀ ⟨next a, toServer, toClient, s⟩ := by
  generalize ht : Talk.hear next = t at h
  generalize hc : a :: toClient = c at h
  cases h with
  | idle => cases hc
  | asking => cases hc
  | @answering _ _ _ _ _ _ ans got _ _ hex hans hhears hturn hsplit hrest hne hsound hin hkeeps =>
    subst ht hc
    rw [List.cons_append] at hrest
    cases hrest with
    | more hrest =>
      by_cases hlast : toClient ++ r.outbox s = []
      · rw [hlast] at hrest
        obtain ⟨rfl, hout⟩ := List.append_eq_nil_iff.1 hlast
        generalize next a = t at hrest
        cases hrest
        exact .idle (.next hex hans hhears) hturn ⟨hsound, hin, hout, hkeeps⟩
      · have hsplit' : ans = got ++ [a] ++ (toClient ++ r.outbox s) := by
          rw [hsplit]
          simp
        exact .answering hex hans hhears hturn hsplit' hrest hlast hsound hin hkeeps

/-- The server takes something in. -/
theorem Turns.take (hl : r.Lawful sound size ok) {a : α} {t : Talk α ρ} {toServer toClient : List α}
    {s : σ} (h : r.Turns sound size ok post t₀ c₀ ⟨t, a :: toServer, toClient, s⟩) :
    r.Turns sound size ok post t₀ c₀ ⟨t, toServer, toClient, r.take s a⟩ := by
  generalize hto : a :: toServer = way at h
  cases h with
  | idle => cases hto
  | answering => cases hto
  | @asking _ req toSay _ _ _ _ hex hasked hans hreq hat =>
    subst hto
    have hroom : (r.inbox s).length < size := by
      have hfits := hasked.fits
      rw [hreq] at hfits
      simp only [List.length_append, List.length_cons] at hfits
      omega
    obtain ⟨hsound, hin, hout, hkeeps⟩ := hl.take s a hat.sound hroom
    refine .asking hex hasked hans ?_ ⟨hsound, rfl, hout.trans hat.outbox, hkeeps.trans hat.keeps⟩
    rw [hin, hreq]
    simp

/-- The server gives something out. -/
theorem Turns.give (hl : r.Lawful sound size ok) {a : α} {t : Talk α ρ}
    {rest toServer toClient : List α} {s : σ} (hout : r.outbox s = a :: rest)
    (h : r.Turns sound size ok post t₀ c₀ ⟨t, toServer, toClient, s⟩) :
    r.Turns sound size ok post t₀ c₀ ⟨t, toServer, toClient ++ [a], r.give s⟩ := by
  cases h with
  | idle _ _ hat => cases hout.symm.trans hat.outbox
  | asking _ _ _ _ hat => cases hout.symm.trans hat.outbox
  | answering hex hans hhears hturn hsplit hrest hne hsound hin hkeeps =>
    obtain ⟨hsound', hin', hout', hkeeps'⟩ := hl.give s a rest hsound hout
    have hsame : toClient ++ r.outbox s = toClient ++ [a] ++ r.outbox (r.give s) := by
      rw [hout, hout']
      simp
    rw [hsame] at hsplit hrest hne
    exact .answering hex hans hhears hturn hsplit hrest hne hsound' (hin'.trans hin)
      (hkeeps'.trans hkeeps)

/-- The server works: it does not break down, and either nothing happens or the request is
    served. -/
theorem Turns.work (hl : r.Lawful sound size ok) {t : Talk α ρ} {toServer toClient : List α} {s : σ}
    {i : ι} (hi : ok i) (h : r.Turns sound size ok post t₀ c₀ ⟨t, toServer, toClient, s⟩) :
    ∃ s', r.work s i = some s' ∧ r.Turns sound size ok post t₀ c₀ ⟨t, toServer, toClient, s'⟩ := by
  cases h with
  | idle hex hturn hat =>
    obtain ⟨s', hwork, hsound, hsame⟩ := hl.idle s i hat.sound hi hat.inbox
    exact ⟨s', hwork, .idle hex hturn (hat.same hsound hsame)⟩
  | @asking _ req toSay _ next resume _ hex hasked hans hreq hat =>
    have hpart : r.inbox s <+: req := by
      rw [hreq, List.append_assoc]
      exact List.prefix_append _ _
    obtain ⟨s', hwork, hsound, hsame | ⟨hwhole, hin⟩⟩ := hasked.works _ s i hpart hat hi
    · refine ⟨s', hwork, .asking hex hasked hans ?_ ?_⟩
      · rw [hsame.inbox]
        exact hreq
      · rw [hsame.inbox]
        exact hat.same hsound hsame
    · -- the whole request was there
      have hnone : toServer ++ toSay = [] := by
        rw [hwhole, List.append_assoc] at hreq
        exact List.self_eq_append_right.1 hreq
      obtain ⟨rfl, rfl⟩ := List.append_eq_nil_iff.1 hnone
      rw [hwhole] at hat
      have hanswers : r.Answers sound ok _ req (r.outbox s') (r.keeps s') :=
        ⟨s, i, s', hat, hi, hwork, hin, rfl, rfl⟩
      obtain ⟨hhears, hturn⟩ := hans _ _ hanswers
      have hsplit : r.outbox s' = [] ++ ([] ++ r.outbox s') := rfl
      exact ⟨s', hwork, .answering hex hanswers hhears hturn hsplit hhears (hturn.hears_ne hhears)
        hsound hin rfl⟩
  | answering hex hans hhears hturn hsplit hrest hne hsound hin hkeeps =>
    obtain ⟨s', hwork, hsound', hsame⟩ := hl.idle s i hsound hi hin
    refine ⟨s', hwork, ?_⟩
    rw [← hsame.outbox] at hsplit hrest hne
    exact .answering hex hans hhears hturn hsplit hrest hne hsound' (hsame.inbox.trans hin)
      (hsame.keeps.trans hkeeps)

/-- The client is not left waiting: if it is to hear something and nothing is under way, the
    server answers as soon as it looks at its inbox. -/
theorem Turns.not_stuck {next : α → Talk α ρ} {s : σ} {i : ι} (hi : ok i)
    (h : r.Turns sound size ok post t₀ c₀ ⟨.hear next, [], [], s⟩) (hout : r.outbox s = [])
    (hready : r.ready s) : ∃ s', r.work s i = some s' ∧ r.outbox s' ≠ [] := by
  generalize ht : Talk.hear next = t at h
  cases h with
  | idle _ hturn =>
    subst ht
    exact absurd hturn not_inTurn_hear
  | @asking _ req toSay _ _ resume _ _ hasked hans hreq hat =>
    cases toSay with
    | cons => cases ht
    | nil =>
      rw [List.append_nil, List.append_nil] at hreq
      rw [← hreq] at hat
      obtain ⟨s', hwork, hin⟩ := hasked.serves s i hat hi hready
      obtain ⟨hhears, hturn⟩ := hans _ _ ⟨s, i, s', hat, hi, hwork, hin, rfl, rfl⟩
      exact ⟨s', hwork, hturn.hears_ne hhears⟩
  | answering _ _ _ _ _ _ hne => exact absurd hout hne

/-- Each act leads from turns to turns. -/
theorem Turns.act (hl : r.Lawful sound size ok) {e : DialogueAct ι}
    (h : r.Turns sound size ok post t₀ c₀ d) (hi : ∀ i, e = .work i → ok i) (hact : r.Act d e d') :
    r.Turns sound size ok post t₀ c₀ d' := by
  cases hact with
  | say => exact h.say
  | hear => exact h.hear
  | take => exact h.take hl
  | give hout => exact h.give hl hout
  | work hwork =>
    obtain ⟨s', hwork', h'⟩ := h.work hl (hi _ rfl)
    cases hwork.symm.trans hwork'
    exact h'

/-- **Turns in every order of the acts.** -/
theorem refines (hl : r.Lawful sound size ok) (ht : r.InTurn sound size ok post t₀ c₀)
    (hr : Reach (r.Begins sound t₀ c₀) r.Act (fun _ e => ∀ i, e = .work i → ok i) d) :
    r.Turns sound size ok post t₀ c₀ d :=
  hr.inv (fun _ hb => .begins ht hb) fun _ _ _ h hi hact => h.act hl hi hact

/-- A client that is done has had all its answers, and nothing is left over. -/
theorem Turns.finished {v : ρ} {toServer toClient : List α} {s : σ}
    (h : r.Turns sound size ok post t₀ c₀ ⟨.done v, toServer, toClient, s⟩) :
    toServer = [] ∧ toClient = [] ∧
      ∃ c, post v c ∧ r.Exchanges sound ok t₀ c₀ (.done v) c ∧ r.At sound c [] s := by
  generalize ht : (Talk.done v : Talk α ρ) = t at h
  cases h with
  | idle hex hturn hat =>
    subst ht
    generalize ht : (Talk.done v : Talk α ρ) = t at hturn
    cases hturn with
    | done hpost =>
      cases ht
      exact ⟨rfl, rfl, _, hpost, hex, hat⟩
    | turn req => cases req <;> cases ht
  | @asking _ _ toSay => cases toSay <;> cases ht
  | answering _ _ _ _ _ hrest hne =>
    subst ht
    generalize toClient ++ r.outbox s = rest at hrest hne
    cases hrest
    exact absurd rfl hne

end Responder
