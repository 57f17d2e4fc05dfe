import Lcq.CrashSafety

/-!
# The first witness of an author is the only one

What is recorded of an author stays as it is, in every later case, epoch and
life. A frame that is witnessed is therefore there ever after if the author had
not been witnessed before, and is not recorded at all if another frame of the
author's has.
-/

namespace Witnesses

open ByteFormat Contracts CrashSafety FileSystem JournalOutcomes JournalRecords JournalRuns
  JournalState LogJournal OrderedMap Program

/-- No entry takes the place of what is recorded of an author. -/
theorem witnessed_apply (s : State) (e : Entry) {author : String} {frame : Bytes}
    (held : s.witnessed[author]? = some frame) :
    (s.apply e).witnessed[author]? = some frame := by
  cases e with
  | witnessed other bytes =>
    rw [State.apply, get_insertIfNew, if_neg]
    · exact held
    · rintro ⟨rfl, free⟩
      rw [held] at free
      cases free
  | _ => exact held

theorem witnessed_applyAll (es : List Entry) (s : State) {author : String} {frame : Bytes}
    (held : s.witnessed[author]? = some frame) :
    (s.applyAll es).witnessed[author]? = some frame := by
  induction es generalizing s with
  | nil => exact held
  | cons e es ih => exact ih (s.apply e) (witnessed_apply s e held)

variable {P : Postcard} {path : Path}

theorem witnessed_run {w : World} (agreeing : Agreeing P path w) {events : List Event}
    (mild : ∀ e ∈ events, e.mild) (apart : path.extension ≠ some "compacting")
    {author : String} {frame : Bytes}
    (held : (w.recovered P path).witnessed[author]? = some frame) :
    ((w.after P path events).recovered P path).witnessed[author]? = some frame := by
  obtain ⟨-, es, -, recovered⟩ := history_recovered agreeing mild apart
  rw [recovered]
  exact witnessed_applyAll es _ held

/-- What is recorded of the author behind a call of `witness` that returns `Ok`: what was, or
the frame if there was nothing. -/
theorem witness_ok {w : World} (agreeing : Agreeing P path w) {env : Env} (calls : Mild env)
    (apart : path.extension ≠ some "compacting") {author : String} {frame : Bytes}
    (ok : w.answer P (.operate (.witness author frame) env) = some (.ok .unit)) :
    ((w.next P path (.operate (.witness author frame) env)).recovered P path).witnessed[author]? =
      some (((w.recovered P path).witnessed[author]?).getD frame) := by
  obtain ⟨j, t, alive, ran, next⟩ := World.answer_ok P path ok
  have told := op_told (agreeing j alive) calls apart (.witness author frame)
  rw [ran, op_ok_recordable ran (by simp) (by simp), Op.entries] at told
  obtain ⟨-, ⟨dead, -⟩ | ⟨-, sound, state⟩⟩ := told
  · cases dead
  · have live : (w.next P path (.operate (.witness author frame) env)).recovered P path =
        t.journal.state := by
      rw [next]
      exact agreeing_recovered (w := ⟨t.disk, some t.journal⟩) (by rintro _ ⟨⟩; exact sound) rfl
    rw [live, state, agreeing_recovered agreeing alive]
    cases known : j.state.witnessed[author]? with
    | some held =>
      have there : j.state.witnessed.contains author = true :=
        (contains_iff _ _).mpr ⟨held, known⟩
      rw [if_pos there, State.applyAll_nil, known]
      rfl
    | none =>
      have absent : j.state.witnessed.contains author = false :=
        (not_contains_iff _ _).mpr known
      rw [if_neg (by simp [absent]), State.applyAll_cons, State.applyAll_nil,
        apply_witnessed absent, get_insert]
      simp

/-- A frame whose witnessing returned `Ok` is what is recorded of its author in every later
state and life exactly if nothing was recorded of the author before, or that very frame. -/
theorem witness_stands (P : Postcard) (path : Path) (disk : Disk Path) (before : List Event)
    (apart : path.extension ≠ some "compacting") (quiet : ∀ e ∈ before, e.noFailure) :
    let w := World.after P path ⟨disk, none⟩ before
    ∀ author frame env, NoFailure env →
      let put := Event.operate (.witness author frame) env
      w.answer P put = some (.ok .unit) →
      ∀ later : List Event, (∀ e ∈ later, e.noFailure) →
        let v := (w.next P path put).after P path later
        (∀ j, v.process = some j → j.state = v.recovered P path) ∧
        ((v.recovered P path).witnessed[author]? = some frame ↔
          (w.recovered P path).witnessed[author]? = none ∨
            (w.recovered P path).witnessed[author]? = some frame) := by
  intro w author frame env calls put ok later quiet' v
  obtain ⟨agreeing, -⟩ := history_recovered (w := ⟨disk, none⟩) agreeing_dead
    (fun e mem => (quiet e mem).mild) apart
  have mild : ∀ e ∈ later, e.mild := fun e mem => (quiet' e mem).mild
  have agreeing' : Agreeing P path (w.next P path put) :=
    (operate_stepped agreeing calls.mild apart _).1
  have recorded := witnessed_run agreeing' mild apart (witness_ok agreeing calls.mild apart ok)
  constructor
  · intro j alive
    exact (agreeing_recovered (history_recovered agreeing' mild apart).1 alive).symm
  · rw [recorded]
    cases (w.recovered P path).witnessed[author]? with
    | none => simp
    | some held => simp

/-- Two cases in one epoch and a compaction between them: each author's own frame is there. -/
theorem witness_stands_apart :
    let path : Path := ⟨"member", some "journal"⟩
    let put := Event.operate (.witness "b" [2]) calm
    let w := World.after postcard path ⟨Disk.empty, none⟩
      [.reopen none calm, .operate (.witness "a" [1]) calm, .operate .compact calm]
    let v := (w.next postcard path put).after postcard path [.crash, .reopen none calm]
    (v.recovered postcard path).witnessed["b"]? = some [2] := by
  intro path put w v
  have law := witness_stands postcard path Disk.empty
    [.reopen none calm, .operate (.witness "a" [1]) calm, .operate .compact calm] (by decide)
    (by simp [Event.noFailure, calm_noFailure])
  refine (law "b" [2] calm calm_noFailure (by decide) [.crash, .reopen none calm]
    (by simp [Event.noFailure, calm_noFailure])).2.mpr (Or.inl ?_)
  decide

/-- The author's vote of an earlier epoch stands in the way of the vote of this one. -/
theorem witness_stands_earlier :
    let path : Path := ⟨"member", some "journal"⟩
    let put := Event.operate (.witness "a" [2]) calm
    let w := World.after postcard path ⟨Disk.empty, none⟩ [.reopen none calm,
      .operate (.enterEpoch 1) calm, .operate (.witness "a" [1]) calm,
      .operate (.enterEpoch 2) calm]
    let v := (w.next postcard path put).after postcard path [.crash, .reopen none calm]
    w.answer postcard put = some (.ok .unit) ∧
      v.live.map (fun state => state.witnessed["a"]?) = some (some [1]) := by
  decide

end Witnesses
