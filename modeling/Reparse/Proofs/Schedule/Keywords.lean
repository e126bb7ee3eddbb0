import Reparse.Proofs.Schedule.Independence
import Reparse.Settings.File

/-!
Which keywords requests look for. Settings that are replaced in a workspace are sanitized, and so
are settings that are read from a file; the settings that a workspace is made with are taken as
they are. So every keyword of a session is usable from the first replacement on, and before it if
the workspace was made with usable ones.
-/

namespace Reparse

/-! ## Tables of usable keywords -/

namespace Keywords

/-- Every keyword of the table can begin a comment's text. -/
def AllUsable (t : Keywords) : Prop :=
  ∀ e ∈ t.entries, usable e.1 = true

instance (t : Keywords) : Decidable t.AllUsable :=
  inferInstanceAs (Decidable (∀ e ∈ t.entries, usable e.1 = true))

theorem allUsable_empty : empty.AllUsable :=
  fun _ he => nomatch he

theorem allUsable_sanitize (t : Keywords) : t.sanitize.AllUsable :=
  fun _ he => usable_of_mem_sanitize he

end Keywords

/-- A parse looks for no keyword that cannot begin a comment's text. -/
def Options.SeeksUsable (o : Options) : Prop :=
  ∀ t, o.taskComments = some t → t.AllUsable

namespace Settings

/-- The options of a parse have the keywords of the settings, if there are any. -/
theorem seeksUsable_options_iff (s : Settings) (version : LanguageVersion) (collect : Bool) :
    (s.options version collect).SeeksUsable ↔ s.taskComments.AllUsable := by
  simp only [Options.SeeksUsable, options]
  split
  · rename_i hempty
    have hnil : s.taskComments.entries = [] := List.isEmpty_iff.1 hempty
    simp [Keywords.AllUsable, hnil]
  · simp

theorem allUsable_of_keywords? {v : Json} {t : Keywords} (h : keywords? v = some t) :
    t.AllUsable := by
  cases v with
  | object members =>
    obtain ⟨es, -, rfl⟩ := Option.map_eq_some_iff.1 h
    exact Keywords.allUsable_sanitize _
  | _ => cases h

theorem allUsable_of_ofFields? {indentation taskComments bindNames version : Option Json}
    {s : Settings} (h : ofFields? indentation taskComments bindNames version = some s) :
    s.taskComments.AllUsable := by
  simp only [ofFields?, Option.bind_eq_bind, Option.bind_eq_some_iff, Option.pure_def,
    Option.some.injEq] at h
  obtain ⟨_, -, t, ht, _, -, _, -, rfl⟩ := h
  cases taskComments with
  | none =>
    obtain rfl := Option.some.inj ht
    exact Keywords.allUsable_empty
  | some v => exact allUsable_of_keywords? ht

/-- Settings are read field by field, whether they are an object or an array. -/
theorem exists_ofFields?_of_ofJson? {v : Json} {s : Settings} (h : ofJson? v = some s) :
    ∃ indentation taskComments bindNames version,
      ofFields? indentation taskComments bindNames version = some s := by
  cases v with
  | object members =>
    obtain ⟨_, -, h⟩ := Option.bind_eq_some_iff.1 h
    obtain ⟨indentation, -, h⟩ := Option.bind_eq_some_iff.1 h
    obtain ⟨taskComments, -, h⟩ := Option.bind_eq_some_iff.1 h
    obtain ⟨bindNames, -, h⟩ := Option.bind_eq_some_iff.1 h
    obtain ⟨version, -, hfields⟩ := Option.bind_eq_some_iff.1 h
    exact ⟨_, _, _, _, hfields⟩
  | array items =>
    obtain ⟨_, -, hfields⟩ := Option.bind_eq_some_iff.1 h
    exact ⟨_, _, _, _, hfields⟩
  | _ => cases h

/-- All keywords of a settings file are usable. -/
theorem allUsable_of_parse {content : ByteArray} {s : Settings} (h : parse content = .ok s) :
    s.taskComments.AllUsable := by
  unfold parse at h
  split at h
  · cases h
  · split at h
    · cases h
    · rename_i hread
      obtain rfl := Except.ok.inj h
      obtain ⟨v, -, hv⟩ := Option.bind_eq_some_iff.1 hread
      obtain ⟨_, _, _, _, hfields⟩ := exists_ofFields?_of_ofJson? hv
      exact allUsable_of_ofFields? hfields

/-- The table that a change brings, as it is given. -/
def Change.keywords? : Change → Option Keywords
  | settings s => some s.taskComments
  | taskComments t => some t
  | indentation _ => none

end Settings

/-! ## The table in force -/

/-- The table that an event brings, as it is given. -/
def Event.keywords? : Event → Option Keywords
  | configure change => change.keywords?
  | _ => none

/-- The table in force after the events: the last one that they bring, sanitized. -/
def Keywords.after (t : Keywords) (events : List Event) : Keywords :=
  events.foldl (fun t e => (e.keywords?.map Keywords.sanitize).getD t) t

theorem Keywords.allUsable_after_iff (t : Keywords) (events : List Event) :
    (t.after events).AllUsable ↔ t.AllUsable ∨ ∃ e ∈ events, e.keywords?.isSome = true := by
  induction events generalizing t with
  | nil => simp [after]
  | cons e events ih =>
    have hcons : t.after (e :: events) =
        ((e.keywords?.map Keywords.sanitize).getD t).after events := rfl
    rw [hcons, ih]
    cases hkeywords : e.keywords? with
    | none => simp [hkeywords]
    | some u => simp [hkeywords, allUsable_sanitize]

namespace Workspace

variable {parser : Parser} {rule : Nat → TouchRule} {w w' : Workspace} {e : Event}

/-- Only a change of the settings touches the table in force. -/
theorem Happens.taskComments (h : Happens parser rule w e w') :
    w'.settings.taskComments =
      (e.keywords?.map Keywords.sanitize).getD w.settings.taskComments := by
  cases h with
  | add _ _ => rfl
  | touch _ _ _ => rfl
  | configure change => cases change <;> rfl
  | enqueue target version runtime =>
    rcases w.enqueue_cases target version runtime with ⟨_, heq⟩ | ⟨_, _, -, -, heq⟩
    · rw [heq]
      rfl
    · rw [heq]
      rfl
  | advance hadvance =>
    obtain ⟨_, _, _, -, -, -, rfl⟩ := advance_eq_some_iff.1 hadvance
    rfl
  | shutdown hshutdown =>
    rw [settings_of_shutdown hshutdown]
    rfl

theorem Session.taskComments {events : List Event} (h : Session parser rule w events w') :
    w'.settings.taskComments = w.settings.taskComments.after events := by
  induction h with
  | nil w => rfl
  | cons he _ ih =>
    rw [ih, he.taskComments]
    rfl

/-- A request keeps the options in force at its acceptance. -/
theorem Reachable.options_of_enqueue (h : Reachable parser rule w) {target : Option Nat}
    {version : LanguageVersion} {runtime : Bool} {t : Ticket} {w₁ w₂ : Workspace}
    (haccept : w.enqueue target version runtime = (w₁, .ok t)) (hlater : Run parser rule w₁ w₂) :
    ∃ r collect, w₂.request? t = some r ∧ r.options = w.settings.options version collect := by
  rcases w.enqueue_cases target version runtime with ⟨_, heq⟩ | ⟨id, l, -, hl, heq⟩
  · rw [heq] at haccept
    cases haccept
  · rw [heq] at haccept
    cases haccept
    have hchain := (h.lane hl).chained
    obtain ⟨l₂, hl₂, hrun⟩ := hlater.lane (NatMap.get?_insert_self _ id _)
    obtain ⟨stage, hr⟩ :=
      (hchain.accept _).request?_run hrun (hchain.numbered.request?_accept_new _)
    exact ⟨_, _, (request?_of_lane hl₂ _).trans hr, rfl⟩

/-- Whatever settings a workspace is made with: its keywords are all usable if it was made with
usable ones or some table has been set since, and in no other case; and so are the keywords of
every request that is accepted then, however the session goes on. -/
theorem keywords_usable_iff {settings : Settings} {events : List Event}
    (hsession : Session parser rule (.ofSettings settings) events w) :
    (w.settings.taskComments.AllUsable ↔
      settings.taskComments.AllUsable ∨ ∃ e ∈ events, e.keywords?.isSome = true) ∧
    ∀ target version runtime w₁ t, w.enqueue target version runtime = (w₁, .ok t) →
      ∀ later w₂, Session parser rule w₁ later w₂ → ∃ r, w₂.request? t = some r ∧
        (r.options.SeeksUsable ↔
          settings.taskComments.AllUsable ∨ ∃ e ∈ events, e.keywords?.isSome = true) := by
  have hforce : w.settings.taskComments.AllUsable ↔
      settings.taskComments.AllUsable ∨ ∃ e ∈ events, e.keywords?.isSome = true := by
    rw [hsession.taskComments]
    exact Keywords.allUsable_after_iff _ _
  refine ⟨hforce, ?_⟩
  intro target version runtime w₁ t haccept later w₂ hlater
  have hreach : Reachable parser rule w :=
    reachable_iff_exists_session.2 ⟨settings, events, hsession⟩
  obtain ⟨r, collect, hr, hoptions⟩ := hreach.options_of_enqueue haccept hlater.run
  refine ⟨r, hr, ?_⟩
  rw [hoptions, Settings.seeksUsable_options_iff]
  exact hforce

/-- A document comes in. -/
def arrival : Event :=
  .add ⟨1, none, none, .project (.buffers .empty) .fresh⟩

/-- A workspace with a document, made with keywords that are empty or hold a blank beside one that
is usable. -/
def unsanitized : Workspace :=
  let keywords := .ofList [("TODO", .warning), ("", .error), ("TO DO", .error)]
  (ofSettings { Settings.standard with taskComments := keywords }).add
    ⟨1, none, none, .project (.buffers .empty) .fresh⟩

/-- The same keywords have been set once more. -/
def sanitized : Workspace :=
  unsanitized.setTaskComments unsanitized.settings.taskComments

theorem session_unsanitized :
    Session .plain (fun _ _ _ => True) (.ofSettings unsanitized.settings) [arrival] unsanitized :=
  .cons (.add ⟨rfl, rfl⟩ rfl) (.nil _)

/-- Keywords are sought as they are, until they are set once more. -/
theorem unsanitized_until_set :
    ¬ unsanitized.settings.taskComments.AllUsable ∧
    (∃ r, (unsanitized.enqueue (some 1) .standard true).1.request? ⟨1, 1⟩ = some r ∧
      ¬ r.options.SeeksUsable) ∧
    sanitized.settings.taskComments.AllUsable ∧
    ∃ r, (sanitized.enqueue (some 1) .standard true).1.request? ⟨1, 1⟩ = some r ∧
      r.options.SeeksUsable := by
  have hraw : ¬ unsanitized.settings.taskComments.AllUsable := by decide
  let change : Event := .configure (.taskComments unsanitized.settings.taskComments)
  have hset : Session .plain (fun _ _ _ => True) (.ofSettings unsanitized.settings)
      [arrival, change] sanitized :=
    .cons (.add ⟨rfl, rfl⟩ rfl) (.cons (.configure (.taskComments _)) (.nil _))
  have hchanged : unsanitized.settings.taskComments.AllUsable ∨
      ∃ e ∈ [arrival, change], e.keywords?.isSome = true :=
    .inr ⟨change, List.mem_cons_of_mem _ List.mem_cons_self, rfl⟩
  obtain ⟨hforce, hrequests⟩ := keywords_usable_iff session_unsanitized
  obtain ⟨hforce', hrequests'⟩ := keywords_usable_iff hset
  obtain ⟨r, hr, hiff⟩ := hrequests (some 1) .standard true _ ⟨1, 1⟩ rfl [] _ (.nil _)
  obtain ⟨r', hr', hiff'⟩ := hrequests' (some 1) .standard true _ ⟨1, 1⟩ rfl [] _ (.nil _)
  refine ⟨hraw, ⟨r, hr, ?_⟩, hforce'.2 hchanged, r', hr', hiff'.2 hchanged⟩
  rw [hiff, ← hforce]
  exact hraw

/-- Keywords are not always usable. -/
theorem not_forall_keywords_usable :
    ¬ ∀ settings events w, Session .plain (fun _ _ _ => True) (.ofSettings settings) events w →
      w.settings.taskComments.AllUsable ∧
      ∀ target version runtime w₁ t, w.enqueue target version runtime = (w₁, .ok t) →
        ∃ r, w₁.request? t = some r ∧ r.options.SeeksUsable := by
  intro hall
  have husable := (hall _ _ _ session_unsanitized).1
  exact absurd husable (by decide)

/-- In a workspace that is made with the standard settings or with those of a file, every keyword
is usable all the time, and so is every keyword of every request that is accepted. -/
theorem keywords_usable_of_parse {settings : Settings} {events : List Event}
    (hstart : settings = .standard ∨ ∃ content, Settings.parse content = .ok settings)
    (hsession : Session parser rule (.ofSettings settings) events w) :
    w.settings.taskComments.AllUsable ∧
    ∀ target version runtime w₁ t, w.enqueue target version runtime = (w₁, .ok t) →
      ∀ later w₂, Session parser rule w₁ later w₂ →
        ∃ r, w₂.request? t = some r ∧ r.options.SeeksUsable := by
  have husable : settings.taskComments.AllUsable := by
    rcases hstart with rfl | ⟨content, hparse⟩
    · exact Keywords.allUsable_empty
    · exact Settings.allUsable_of_parse hparse
  obtain ⟨hforce, hrequests⟩ := keywords_usable_iff hsession
  refine ⟨hforce.2 (.inl husable), ?_⟩
  intro target version runtime w₁ t haccept later w₂ hlater
  obtain ⟨r, hr, hiff⟩ := hrequests target version runtime w₁ t haccept later w₂ hlater
  exact ⟨r, hr, hiff.2 (.inl husable)⟩

end Workspace

end Reparse
