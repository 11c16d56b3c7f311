import TextParsing.Proofs.Forward
import TextParsing.Proofs.Visits

/-!
# Parsers halt

A repetition has no counter. It goes on until its step fails or stands still, and the limit
that runs are given is there only to have it end in any case. It is not needed: each step
that does not stand still moves the cursor forward, past at least one unit, so that a
repetition makes at most one more attempt than there are units left.

To say this without the limit, all limits are looked at together. What depends on a limit
*settles* if it is one and the same run for all limits that are large enough, and this run
comes to an outcome (`Run.Settles`). A step *halts* if it settles as soon as the limit
exceeds the number of unread units, and does not go back (`Halts`); and a parser halts if
all its steps do (`Parser.halts`). Rules are not looked into: a step that runs a rule halts
if the rule does.

Main statement: `Parser.run_eq_of_unitsLeft_lt`, for all parsers without recursion. It also
says how often the repetitions in a run make an attempt, and how many values they give.
-/

namespace TextParsing

variable {S : Signature} {ν α β : Type}

/-- A success does not lie before the cursor. -/
def Outcome.Onward (c : Cursor) : Outcome α → Prop
  | success _ d => c.Precedes d
  | failure _ => True

theorem Outcome.Onward.trans {c d : Cursor} (h : c.Precedes d) {o : Outcome α}
    (ho : o.Onward d) : o.Onward c := by
  cases o with
  | success v e => exact h.trans ho
  | failure f => trivial

/-- The list of a success has at most `n` values. -/
def Outcome.Within (n : Nat) : Outcome (List α) → Prop
  | success vs _ => vs.length ≤ n
  | failure _ => True

/-! ### Runs that settle -/

namespace Run

variable {ι κ : Type}

/-- For all indices in `D` the run is the same one, and comes to an outcome with `Q`. -/
def Settles (D : ι → Prop) (r : ι → Run ν α) (Q : Outcome α → Prop) : Prop :=
  ∃ o ns, (∀ i, D i → r i = ⟨.ok o, ns⟩) ∧ Q o

namespace Settles

variable {D : ι → Prop} {r : ι → Run ν α} {P Q : Outcome α → Prop}

theorem outcome {o : Outcome α} (h : Q o) :
    Settles D (fun _ => (ofChecked (.ok o) : Run ν α)) Q :=
  ⟨o, [], fun _ _ => rfl, h⟩

theorem success {v : α} {c : Cursor} (h : Q (.success v c)) :
    Settles D (fun _ => (Run.success v c : Run ν α)) Q :=
  outcome h

theorem failure {f : Failure} (h : Q (.failure f)) :
    Settles D (fun _ => (Run.failure f : Run ν α)) Q :=
  outcome h

theorem mono (h : Settles D r P) (hPQ : ∀ o, P o → Q o) : Settles D r Q := by
  obtain ⟨o, ns, hr, ho⟩ := h
  exact ⟨o, ns, hr, hPQ o ho⟩

/-- What settles may be looked at under other indices. -/
theorem comp (h : Settles D r Q) {E : κ → Prop} {s : κ → Run ν α} (f : κ → ι)
    (hf : ∀ j, E j → D (f j)) (hs : ∀ j, E j → s j = r (f j)) : Settles E s Q := by
  obtain ⟨o, ns, hr, ho⟩ := h
  exact ⟨o, ns, fun j hj => (hs j hj).trans (hr (f j) (hf j hj)), ho⟩

theorem ensures (h : Settles D r Q) {i : ι} (hi : D i) : (r i).Ensures Q := by
  obtain ⟨o, ns, hr, ho⟩ := h
  rw [hr i hi]
  exact .after ns (.outcome ho)

theorem after (ns : List ν) (h : Settles D r Q) : Settles D (fun i => (r i).after ns) Q := by
  obtain ⟨o, ms, hr, ho⟩ := h
  exact ⟨o, ns ++ ms, fun i hi => congrArg (Run.after ns) (hr i hi), ho⟩

theorem elim {R : Outcome β → Prop} {k : ι → α → Cursor → Run ν β} {e : ι → Failure → Run ν β}
    (h : Settles D r P) (hk : ∀ v c, P (.success v c) → Settles D (fun i => k i v c) R)
    (he : ∀ f, P (.failure f) → Settles D (fun i => e i f) R) :
    Settles D (fun i => (r i).elim (k i) (e i)) R := by
  obtain ⟨o, ns, hr, ho⟩ := h
  -- All runs go on with the same outcome.
  cases o with
  | success v c =>
    exact ((hk v c ho).after ns).comp id (fun _ hi => hi) fun i hi => by rw [hr i hi]; rfl
  | failure f =>
    exact ((he f ho).after ns).comp id (fun _ hi => hi) fun i hi => by rw [hr i hi]; rfl

theorem andThen {R : Outcome β → Prop} {k : ι → α → Cursor → Run ν β} (h : Settles D r P)
    (hk : ∀ v c, P (.success v c) → Settles D (fun i => k i v c) R)
    (hf : ∀ f, P (.failure f) → R (.failure f)) : Settles D (fun i => (r i).andThen (k i)) R :=
  h.elim hk fun f hP => .failure (hf f hP)

theorem map {R : Outcome β → Prop} {f : α → β} (h : Settles D r P)
    (hs : ∀ v c, P (.success v c) → R (.success (f v) c))
    (hf : ∀ f, P (.failure f) → R (.failure f)) : Settles D (fun i => (r i).map f) R :=
  h.andThen (fun v c hP => .success (hs v c hP)) hf

/-! ### Repetition -/

open Outcome (Onward)

/-- How a repetition goes on after a success of its step, with one attempt less. If the step
    moved, fewer units are left, and the rest of the repetition settles that much earlier. -/
theorem goOn {step : ι → Cursor → Run ν α} {c d : Cursor} {n : Nat} (v : α)
    (hn : c.unitsLeft = .ok n) (hd : c.Precedes d)
    (hrest : ∀ m < n, d.unitsLeft = .ok m → Settles (fun j : Nat × ι => m < j.1 ∧ D j.2)
      (fun j => Run.repeatFrom (step j.2) j.1 d) (Onward d)) :
    Settles (fun j : Nat × ι => n ≤ j.1 ∧ D j.2)
      (fun j => if d = c then Run.success [v] d
        else (Run.repeatFrom (step j.2) j.1 d).map (v :: ·)) (Onward c) := by
  split
  · exact .success hd
  · next hne =>
    obtain ⟨m, hm, -, hlt⟩ := hd.unitsLeft hn
    refine ((hrest m (hlt hne) hm).comp id (fun j hj => ?_) fun _ _ => rfl).map
      (fun _ _ he => hd.trans he) fun _ _ => trivial
    exact ⟨Nat.lt_of_lt_of_le (hlt hne) hj.1, hj.2⟩

/-- What does not depend on the limit settles for limits of any kind. -/
theorem limited (h : Settles D r Q) (E : Nat → Prop) :
    Settles (fun j : Nat × ι => E j.1 ∧ D j.2) (fun j => r j.2) Q :=
  h.comp Prod.snd (fun _ hj => hj.2) fun _ _ => rfl

/-- The limits beyond `n` are those that leave at least `n` after one attempt. -/
theorem beyond {s : Nat → ι → Run ν α} {n : Nat}
    (h : Settles (fun j : Nat × ι => n ≤ j.1 ∧ D j.2) (fun j => s (j.1 + 1) j.2) Q) :
    Settles (fun j : Nat × ι => n < j.1 ∧ D j.2) (fun j => s j.1 j.2) Q := by
  refine h.comp (fun j => (j.1 - 1, j.2)) (fun j hj => ⟨Nat.le_sub_one_of_lt hj.1, hj.2⟩) ?_
  rintro ⟨limit, i⟩ ⟨hlimit, -⟩
  dsimp only
  rw [Nat.sub_add_cancel (Nat.succ_le_of_lt (Nat.zero_lt_of_lt hlimit))]

theorem repeatFrom {step : ι → Cursor → Run ν α} {c : Cursor} {n : Nat}
    (hn : c.unitsLeft = .ok n)
    (h : ∀ d, c.Precedes d → Settles D (fun i => step i d) (Onward d)) :
    Settles (fun j : Nat × ι => n < j.1 ∧ D j.2) (fun j => Run.repeatFrom (step j.2) j.1 c)
      (Onward c) := by
  induction n using Nat.strongRecOn generalizing c with
  | ind n ih =>
    have hc : c.Precedes c := .refl (Cursor.valid_of_unitsLeft hn)
    refine beyond (s := fun limit i => Run.repeatFrom (step i) limit c) ?_
    refine ((h c hc).limited _).elim (fun v d (hd : c.Precedes d) => ?_) fun _ _ => .success hc
    exact goOn v hn hd fun m hm hleft => ih m hm hleft fun e he => h e (hd.trans he)

theorem repeatFrom1 {step : ι → Cursor → Run ν α} {c : Cursor} {n : Nat}
    (hn : c.unitsLeft = .ok n)
    (h : ∀ d, c.Precedes d → Settles D (fun i => step i d) (Onward d)) :
    Settles (fun j : Nat × ι => n < j.1 ∧ D j.2) (fun j => Run.repeatFrom1 (step j.2) j.1 c)
      (Onward c) := by
  have hc : c.Precedes c := .refl (Cursor.valid_of_unitsLeft hn)
  refine beyond (s := fun limit i => Run.repeatFrom1 (step i) limit c) ?_
  refine ((h c hc).limited _).andThen (fun v d (hd : c.Precedes d) => ?_) fun _ _ => trivial
  exact goOn v hn hd fun m _ hleft => repeatFrom hleft fun e he => h e (hd.trans he)

end Settles

/-! ### How many attempts, and how many values -/

open Outcome (Onward Within)

theorem length_onSuccess_le {γ : Type} {r : Run ν α} {k : α → Cursor → List γ} {n : Nat}
    (h : ∀ v d, r.result = .ok (.success v d) → (k v d).length ≤ n) :
    (r.onSuccess k).length ≤ n := by
  rcases r with ⟨a | (⟨v, d⟩ | f), ns⟩
  · exact Nat.zero_le n
  · exact h v d rfl
  · exact Nat.zero_le n

/-- If the steps of a repetition do not go back, it makes at most one more attempt than there
    are units left. -/
theorem length_attempts_le {step : Cursor → Run ν α} {c : Cursor} {n : Nat}
    (hn : c.unitsLeft = .ok n) (h : ∀ d, c.Precedes d → (step d).Ensures (Onward d))
    (limit : Nat) : (attempts step limit c).length ≤ n + 1 := by
  induction limit generalizing c n with
  | zero => exact Nat.zero_le _
  | succ limit ih =>
    rw [attempts, List.length_cons]
    refine Nat.succ_le_succ (length_onSuccess_le fun v d hv => ?_)
    have hd : c.Precedes d := h c (.refl (Cursor.valid_of_unitsLeft hn)) _ hv
    split
    · exact Nat.zero_le n
    · next hne =>
      -- The step moved, so fewer units are left at `d`.
      obtain ⟨m, hm, -, hlt⟩ := hd.unitsLeft hn
      exact Nat.le_trans (ih hm fun e he => h e (hd.trans he)) (hlt hne)

section Values

variable (step : Cursor → Run ν α)

theorem ensures_within_goOn (limit : Nat) (c d : Cursor) (v : α)
    (hrest : (repeatFrom step limit d).Ensures (Within (attempts step limit d).length)) :
    (if d = c then success [v] d else (repeatFrom step limit d).map (v :: ·)).Ensures
      (Within (c :: if d = c then [] else attempts step limit d).length) := by
  split
  · exact .success (Nat.le_refl 1)
  · exact hrest.map (fun _ _ hvs => Nat.succ_le_succ hvs) fun _ _ => trivial

/-- Each value comes from an attempt of its own. -/
theorem ensures_within_repeatFrom (limit : Nat) (c : Cursor) :
    (repeatFrom step limit c).Ensures (Within (attempts step limit c).length) := by
  induction limit generalizing c with
  | zero => exact .unfinished _
  | succ limit ih =>
    rw [repeatFrom, attempts]
    refine (step c).ensures_result.elim (fun v d hv => ?_) fun _ _ => .success (Nat.zero_le _)
    rw [onSuccess, hv]
    exact ensures_within_goOn step limit c d v (ih d)

theorem ensures_within_repeatFrom1 (limit : Nat) (c : Cursor) :
    (repeatFrom1 step limit c).Ensures (Within (attempts step limit c).length) := by
  cases limit with
  | zero => exact .unfinished _
  | succ limit =>
    rw [repeatFrom1, attempts]
    refine (step c).ensures_result.andThen (fun v d hv => ?_) fun _ _ => trivial
    rw [onSuccess, hv]
    exact ensures_within_goOn step limit c d v (ensures_within_repeatFrom step limit d)

end Values

end Run

/-! ### Steps and parsers that halt -/

open Outcome (Onward Within)

section Halting

variable (call : (r : Fin S.rules) → Cursor → Run (Note S) (S.Result r))

/-- At a cursor with `n` unread units, the step comes to an outcome, which is the same for all
    limits beyond `n`; and if it succeeds, it does so on the same text, not before the
    cursor. -/
def Halts (α : Type) (step : Step S α) : Prop :=
  ∀ (c : Cursor) (n : Nat), c.unitsLeft = .ok n →
    Run.Settles (n < ·) (fun limit => step ⟨call, limit⟩ c) (Onward c)

/-- A step that looks at the cursor only halts if it comes to an outcome at each valid
    cursor, and does not go back. -/
theorem halts_of_outcome {f : Cursor → Run (Note S) α}
    (h : ∀ c, c.Valid → ∃ o ns, f c = ⟨.ok o, ns⟩ ∧ o.Onward c) : Halts call α fun _ => f := by
  intro c n hn
  obtain ⟨o, ns, hf, ho⟩ := h c (Cursor.valid_of_unitsLeft hn)
  exact ⟨o, ns, fun _ _ => hf, ho⟩

variable {call}

/-- Further on, fewer units are left, so that what settles there settles at `c` already. -/
theorem Halts.settles {step : Step S α} (h : Halts call α step) {c d : Cursor} {n : Nat}
    (hn : c.unitsLeft = .ok n) (hd : c.Precedes d) :
    Run.Settles (n < ·) (fun limit => step ⟨call, limit⟩ d) (Onward d) := by
  obtain ⟨m, hm, hle, -⟩ := hd.unitsLeft hn
  exact (h d m hm).comp id (fun _ hlimit => Nat.lt_of_le_of_lt hle hlimit) fun _ _ => rfl

theorem Halts.settles_onward {step : Step S α} (h : Halts call α step) {c d : Cursor} {n : Nat}
    (hn : c.unitsLeft = .ok n) (hd : c.Precedes d) :
    Run.Settles (n < ·) (fun limit => step ⟨call, limit⟩ d) (Onward c) :=
  (h.settles hn hd).mono fun _ ho => ho.trans hd

theorem Primitive.halts (p : Primitive α) : Halts call α fun _ c => .ofChecked (p.run c) := by
  refine halts_of_outcome call fun c hc => ?_
  obtain ⟨u, r, rfl⟩ := Cursor.valid_iff.1 hc
  obtain ⟨verdict, w, v, rfl, hrun⟩ := p.run_settled r
  refine ⟨.ofVerdict (.past (u ++ w) v) verdict, [], by rw [hrun]; rfl, ?_⟩
  cases verdict with
  | ok x => exact (Cursor.Reads.past u w v).precedes
  | error e => trivial

/-- A parser is a step too, and it halts if the steps in it do. -/
theorem Parser.halts {p : Parser S α} (hp : p.EveryStep (Halts call)) :
    Halts call α fun ctx => p.run ctx := by
  induction p with
  | primitive p => exact p.halts
  | bind p k ihp ihk =>
    intro c n hn
    exact (ihp hp.1 c n hn).andThen (fun v d hd => (ihk v (hp.2 v)).settles_onward hn hd)
      fun _ _ => trivial
  | map p f ih =>
    intro c n hn
    exact (ih hp c n hn).map (fun _ _ hd => hd) fun _ _ => trivial
  | apply pf pa ihf iha =>
    intro c n hn
    refine (ihf hp.1 c n hn).andThen (fun f d hd => ?_) fun _ _ => trivial
    exact ((iha hp.2).settles_onward hn hd).map (fun _ _ he => he) fun _ _ => trivial
  | orElse p q ihp ihq =>
    intro c n hn
    exact (ihp hp.1 c n hn).elim (fun _ _ hd => .success hd) fun _ _ => ihq hp.2 c n hn
  | andThen p q ihp ihq =>
    intro c n hn
    exact (ihp hp.1 c n hn).andThen (fun _ d hd => (ihq hp.2).settles_onward hn hd)
      fun _ _ => trivial
  | thenSkip p q ihp ihq =>
    intro c n hn
    refine (ihp hp.1 c n hn).andThen (fun v d hd => ?_) fun _ _ => trivial
    exact ((ihq hp.2).settles_onward hn hd).map (fun _ _ he => he) fun _ _ => trivial
  | many p ih =>
    -- The limit bounds the attempts here, and is handed on to the attempts.
    intro c n hn
    exact (Run.Settles.repeatFrom hn fun d hd => (ih hp).settles hn hd).comp
      (fun limit => (limit, limit)) (fun _ hlimit => ⟨hlimit, hlimit⟩) fun _ _ => rfl
  | many1 p ih =>
    intro c n hn
    exact (Run.Settles.repeatFrom1 hn fun d hd => (ih hp).settles hn hd).comp
      (fun limit => (limit, limit)) (fun _ hlimit => ⟨hlimit, hlimit⟩) fun _ _ => rfl
  | inspect p tag view ih =>
    intro c n hn
    exact (ih hp c n hn).andThen (fun v d hd => .after _ (.success hd)) fun _ _ => trivial
  | tell tag seen p ih =>
    intro c n hn
    exact (ih hp c n hn).after _
  | custom description step => exact hp

end Halting

/-! ### Repetitions in a run -/

/-- The repetition `q` of `p` makes at most one more attempt than there are units left at `c`,
    and comes to an outcome, with a list of at most that many values. -/
def Parser.RepeatsWithin (ctx : Context S) (p : Parser S α) (q : Parser S (List α))
    (c : Cursor) : Prop :=
  ∃ n o, c.unitsLeft = .ok n ∧ (Run.attempts (p.run ctx) ctx.limit c).length ≤ n + 1 ∧
    (q.run ctx c).result = .ok o ∧ o.Within (n + 1)

/-- If what is visited is a repetition, then it is bounded by the units that are left where it
    starts. -/
def Visit.Bounded (ctx : Context S) : Visit S → Prop
  | ⟨_, .many p, c⟩ => p.RepeatsWithin ctx (.many p) c
  | ⟨_, .many1 p, c⟩ => p.RepeatsWithin ctx (.many1 p) c
  | _ => True

namespace Parser

variable {call : (r : Fin S.rules) → Cursor → Run (Note S) (S.Result r)} {limit : Nat}

/-- Each value of a repetition comes from an attempt, and there are not too many of these. -/
theorem repeatsWithin_of_halts {p : Parser S α} {q : Parser S (List α)}
    (hp : p.EveryStep (Halts call)) (hq : q.EveryStep (Halts call)) {c : Cursor} {n : Nat}
    (hn : c.unitsLeft = .ok n) (hlimit : n < limit)
    (h : (q.run ⟨call, limit⟩ c).Ensures
      (Within (Run.attempts (p.run ⟨call, limit⟩) limit c).length)) :
    p.RepeatsWithin ⟨call, limit⟩ q c := by
  have hattempts := Run.length_attempts_le hn
    (fun d hd => ((halts hp).settles hn hd).ensures hlimit) limit
  obtain ⟨o, ns, hrun, -⟩ := halts hq c n hn
  have ho : (q.run ⟨call, limit⟩ c).result = .ok o := congrArg Run.result (hrun limit hlimit)
  refine ⟨n, o, hn, hattempts, ho, ?_⟩
  have hwithin := h o ho
  cases o with
  | success vs d => exact Nat.le_trans hwithin hattempts
  | failure f => trivial

theorem bounded_of_halts {p : Parser S α} (hp : p.EveryStep (Halts call)) {c : Cursor} {n : Nat}
    (hn : c.unitsLeft = .ok n) (hlimit : n < limit) :
    Visit.Bounded ⟨call, limit⟩ ⟨α, p, c⟩ := by
  cases p with
  | many p =>
    exact repeatsWithin_of_halts (p := p) hp hp hn hlimit (Run.ensures_within_repeatFrom _ limit c)
  | many1 p =>
    exact repeatsWithin_of_halts (p := p) hp hp hn hlimit (Run.ensures_within_repeatFrom1 _ limit c)
  | _ => trivial

/-- A parser without recursion comes to an outcome at every valid cursor, and to the same one
    for all limits that exceed the number of unread units. Each repetition that is visited on
    the way makes at most one more attempt than there are units left where it starts, and has
    a list of at most that many values. Of the caller's steps it is asked that they come to
    an outcome, and do not succeed before the cursor or on another text. -/
theorem run_eq_of_unitsLeft_lt (call : (r : Fin S.rules) → Cursor → Run (Note S) (S.Result r))
    (p : Parser S α) (hp : p.EveryStep (Halts call)) (c : Cursor) (hc : c.Valid) :
    ∃ n, c.unitsLeft = .ok n ∧ ∃ (o : Outcome α) (ns : List (Note S)), ∀ limit, n < limit →
      p.run ⟨call, limit⟩ c = ⟨.ok o, ns⟩ ∧
      ∀ v ∈ p.visits ⟨call, limit⟩ c, v.Bounded ⟨call, limit⟩ := by
  obtain ⟨u, r, rfl⟩ := Cursor.valid_iff.1 hc
  have hn := Cursor.unitsLeft_past u r
  obtain ⟨o, ns, hrun, -⟩ := halts hp _ _ hn
  refine ⟨r.length, hn, o, ns, fun limit hlimit => ⟨hrun limit hlimit, fun v hv => ?_⟩⟩
  -- The visits lie ahead of the start, where no more units are left than there.
  have honward : ∀ β (q : Parser S β), q.EveryStep (Halts call) →
      ∀ d, (Cursor.past u r).Precedes d → ∀ w e,
        (q.run ⟨call, limit⟩ d).result = .ok (.success w e) → (Cursor.past u r).Precedes e := by
    intro β q hq d hd w e he
    have hde : d.Precedes e := ((halts hq).settles hn hd).ensures hlimit _ he
    exact hd.trans hde
  obtain ⟨hparser, hahead⟩ := of_mem_visits honward hp.everyPart (.refl hc) v hv
  obtain ⟨m, hm, hle, -⟩ := hahead.unitsLeft hn
  exact bounded_of_halts hparser hm (Nat.lt_of_le_of_lt hle hlimit)

/-- The inner repetition matches the empty text, and the step reads nothing. Rules need not
    halt, as none is run. The inner repetition is chosen by what the step sees, and is visited
    where the step has seen it; so it is one of the repetitions that are bounded. -/
theorem run_eq_of_unitsLeft_lt_groups :
    let S : Signature := .brackets
    let call : (r : Fin S.rules) → Cursor → Run (Note S) (S.Result r) := fun _ _ => .unfinished
    let look : Parser S Char := .ofStep fun _ c => .ofChecked do
      match ← c.value with
      | some x => return .success x c
      | none => return .refuse "look" c
    let p : Parser S (List (List Text)) :=
      .many (.bind look fun x => .many1 (.takeWhile (· == x)))
    let c : Cursor := .start ['é', 'é', 'x']
    let ctx : Context S := ⟨call, 4⟩
    (∃ n, c.unitsLeft = .ok n ∧ ∃ o ns, ∀ limit, n < limit →
      p.run ⟨call, limit⟩ c = ⟨.ok o, ns⟩ ∧
      ∀ v ∈ p.visits ⟨call, limit⟩ c, v.Bounded ⟨call, limit⟩) ∧
    (p.run ctx c).result = .ok (.success [[['é', 'é'], []], [['x'], []]] ⟨c.source, 5⟩) ∧
    Run.attempts ((Parser.bind look fun x => .many1 (.takeWhile (· == x))).run ctx) 4 c =
      [c, ⟨c.source, 4⟩, ⟨c.source, 5⟩] ∧
    ⟨List Text, .many1 (.takeWhile (· == 'é')), c⟩ ∈ p.visits ctx c ∧
    ⟨List Text, .many1 (.takeWhile (· == 'x')), ⟨c.source, 4⟩⟩ ∈ p.visits ctx c ∧
    (Parser.takeWhile (· == 'x') : Parser S Text).RepeatsWithin ctx
      (.many1 (.takeWhile (· == 'x'))) ⟨c.source, 4⟩ := by
  intro S call look p c ctx
  have hlook : look.EveryStep (Halts call) := by
    refine halts_of_outcome call fun c hc => ?_
    obtain ⟨u, r, rfl⟩ := Cursor.valid_iff.1 hc
    rw [Cursor.value_past]
    cases r with
    | nil => exact ⟨_, _, rfl, trivial⟩
    | cons x r => exact ⟨_, _, rfl, .refl hc⟩
  have hp : p.EveryStep (Halts call) := ⟨hlook, fun _ => trivial⟩
  have hbounded := p.run_eq_of_unitsLeft_lt call hp c (by decide)
  have hattempts : Run.attempts ((Parser.bind look fun x => .many1 (.takeWhile (· == x))).run ctx)
      4 c = [c, ⟨c.source, 4⟩, ⟨c.source, 5⟩] := rfl
  -- An attempt that sees a unit visits the repetition that is chosen by it.
  have hvisit : ∀ d ∈ [c, ⟨c.source, 4⟩, ⟨c.source, 5⟩], ∀ x,
      (look.run ctx d).result = .ok (.success x d) →
      ⟨List Text, .many1 (.takeWhile (· == x)), d⟩ ∈ p.visits ctx c := by
    intro d hd x hx
    refine List.mem_append_left _ (List.mem_flatMap.2 ⟨d, hattempts ▸ hd, ?_⟩)
    refine List.mem_append_left _ (List.mem_append_right _ ?_)
    rw [Run.onSuccess, hx]
    exact mem_visits_self ctx _ d
  have hsecond := hvisit ⟨c.source, 4⟩ (List.mem_cons_of_mem _ List.mem_cons_self) 'x' rfl
  refine ⟨hbounded, rfl, hattempts, hvisit c List.mem_cons_self 'é' rfl, hsecond, ?_⟩
  obtain ⟨n, hn, o, ns, hlimit⟩ := hbounded
  obtain rfl : 3 = n := Except.ok.inj hn
  exact (hlimit 4 (by decide)).2 _ hsecond

end Parser

end TextParsing
