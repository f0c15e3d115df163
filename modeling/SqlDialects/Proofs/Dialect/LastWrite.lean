/-
The registry as a map in which the last write wins, over all histories of registrations, resets and questions.

- `Registry.Registered`, `Registry.RegisteredLast`: what a history says of a name, told without any registry.
- `Registry.tracks_serve`: one request keeps a registry in step with its history.
- `Registry.lastWriteWins_run`: so every run that begins with the built-in dialects ends with the registry that its
  history tells of, and with the answers that follow from it.
-/
import Mathlib.Data.List.Induction
import SqlDialects.Dialect.Registry
import SqlDialects.Proofs.Text.Lowercase

namespace SqlDialects

/-! ## Driver names in any case -/

/-- a driver is named in any case of ASCII letters, and in no other way -/
theorem Driver.toLower_of_lowercase {name : String} {driver : Driver} (h : Text.lowercase name = driver.text) :
    name.toList.map Char.toLower = driver.text.toList := by
  have hkey : name.toList.flatMap Text.lowerChar = driver.text.toList := by rw [← h, Text.lowercase, String.toList_ofList]
  exact Text.flatMap_lowerChar (by cases driver <;> decide) (by cases driver <;> decide) hkey

namespace Registry

/-! ## Histories -/

/-- what a registry is asked to do, or to tell -/
inductive Request where
  | register (dialect : Dialect)
  | reset
  | available
  | get (name : String)
  | resolve (choice : DialectChoice)

inductive Response where
  | done
  | names (names : List String)
  | found (outcome : Except UnsupportedDialect Dialect)
  | resolved (attempt : Traced UnsupportedDialect Dialect)

/-- the registry after a request, and what it responds -/
def serve (registry : Registry) : Request → Registry × Response
  | .register dialect => (registry.register dialect, .done)
  | .reset => (empty, .done)
  | .available => (registry, .names registry.available)
  | .get name => (registry, .found (registry.get name))
  | .resolve choice => (registry, .resolved (registry.resolve choice))

def run (registry : Registry) (requests : List Request) : Registry :=
  requests.foldl (fun registry request => (registry.serve request).1) registry

/-- the registrations that a registry of the built-in dialects stands for -/
def startup : List Request := Driver.all.map fun driver => .register (Dialect.builtin driver)

/-- the request ends what was registered under the name before -/
def Request.Overwrites (name : String) : Request → Prop
  | .register dialect => dialect.driver.text = name
  | .reset => True
  | _ => False

/-- the dialect was registered, and no request after that is of the kind `ends` -/
def RegisteredSince (ends : Request → Prop) (history : List Request) (dialect : Dialect) : Prop :=
  ∃ earlier later, history = earlier ++ .register dialect :: later ∧ ∀ request ∈ later, ¬ ends request

/-- something was registered under the name since the last reset -/
def Registered (history : List Request) (name : String) : Prop :=
  ∃ dialect, dialect.driver.text = name ∧ RegisteredSince (· = .reset) history dialect

/-- the dialect was registered under the name; since then there was no reset, and nothing else under that name -/
def RegisteredLast (history : List Request) (name : String) (dialect : Dialect) : Prop :=
  dialect.driver.text = name ∧ RegisteredSince (Request.Overwrites name) history dialect

variable {history : List Request} {registry : Registry} {request : Request} {name : String} {dialect : Dialect}

theorem not_registeredSince_nil {ends : Request → Prop} : ¬ RegisteredSince ends [] dialect := by
  rintro ⟨earlier, later, hsplit, -⟩
  simp at hsplit

theorem registeredSince_concat {ends : Request → Prop} : RegisteredSince ends (history ++ [request]) dialect ↔
    request = .register dialect ∨ (¬ ends request ∧ RegisteredSince ends history dialect) := by
  refine ⟨?_, ?_⟩
  · rintro ⟨earlier, later, hsplit, hlater⟩
    rcases List.eq_nil_or_concat later with rfl | ⟨later, last, rfl⟩
    · exact Or.inl (List.singleton_inj.1 (List.append_inj' hsplit rfl).2)
    · rw [List.concat_eq_append, ← List.cons_append, ← List.append_assoc] at hsplit
      obtain ⟨rfl, hlast⟩ := List.append_inj' hsplit rfl
      obtain rfl := List.singleton_inj.1 hlast
      exact Or.inr ⟨hlater _ (by simp), earlier, later, rfl, fun r hr => hlater r (by simp [hr])⟩
  · rintro (rfl | ⟨hends, earlier, later, rfl, hlater⟩)
    · exact ⟨history, [], rfl, fun r hr => by cases hr⟩
    · refine ⟨earlier, later ++ [request], by simp, fun r hr => ?_⟩
      rcases List.mem_append.1 hr with hr | hr
      · exact hlater r hr
      · rw [List.mem_singleton.1 hr]; exact hends

theorem registered_register (other : Dialect) :
    Registered (history ++ [.register other]) name ↔ other.driver.text = name ∨ Registered history name := by
  simp only [Registered, registeredSince_concat]
  refine ⟨?_, ?_⟩
  · rintro ⟨dialect, hname, heq | ⟨-, hsince⟩⟩
    · cases heq; exact Or.inl hname
    · exact Or.inr ⟨dialect, hname, hsince⟩
  · rintro (hname | ⟨dialect, hname, hsince⟩)
    · exact ⟨other, hname, Or.inl rfl⟩
    · exact ⟨dialect, hname, Or.inr ⟨by simp, hsince⟩⟩

theorem registeredLast_register (other : Dialect) : RegisteredLast (history ++ [.register other]) name dialect ↔
    if other.driver.text = name then other = dialect else RegisteredLast history name dialect := by
  rw [RegisteredLast, registeredSince_concat]
  split
  · rename_i hname
    refine ⟨?_, ?_⟩
    · rintro ⟨-, heq | ⟨hends, -⟩⟩
      · cases heq; rfl
      · exact absurd hname hends
    · rintro rfl; exact ⟨hname, Or.inl rfl⟩
  · rename_i hname
    refine ⟨?_, ?_⟩
    · rintro ⟨hdialect, heq | ⟨-, hsince⟩⟩
      · cases heq; exact absurd hdialect hname
      · exact ⟨hdialect, hsince⟩
    · rintro ⟨hdialect, hsince⟩; exact ⟨hdialect, Or.inr ⟨hname, hsince⟩⟩

/-- what was registered under a name since the last reset has a last one -/
theorem registered_iff : Registered history name ↔ ∃ dialect, RegisteredLast history name dialect := by
  induction history using List.reverseRecOn with
  | nil => simp [Registered, RegisteredLast, not_registeredSince_nil]
  | append_singleton history request ih =>
    cases request with
    | register other =>
      by_cases hname : other.driver.text = name
      · simp [registered_register, registeredLast_register, hname]
      · simp [registered_register, registeredLast_register, hname, ih]
    | reset => simp [Registered, RegisteredLast, registeredSince_concat, Request.Overwrites]
    | _ => simpa [Registered, RegisteredLast, registeredSince_concat, Request.Overwrites] using ih

/-! ## Registries in step with a history -/

theorem mem_available_iff : name ∈ registry.available ↔ ∃ dialect, registry.under name = some dialect := by
  rw [← Option.isSome_iff_exists, under, List.find?_isSome, available]
  simp only [List.mem_map, List.mem_filter, List.any_eq_true, beq_iff_eq]
  refine ⟨?_, ?_⟩
  · rintro ⟨driver, ⟨-, dialect, hmem, rfl⟩, rfl⟩
    exact ⟨dialect, hmem, rfl⟩
  · rintro ⟨dialect, hmem, rfl⟩
    exact ⟨dialect.driver, ⟨Driver.mem_all _, dialect, hmem, rfl⟩, rfl⟩

theorem sorted_available (registry : Registry) : registry.available.Pairwise (· < ·) := by
  have hall : (Driver.all.map Driver.text).Pairwise (· < ·) := by decide
  exact hall.sublist (List.filter_sublist.map Driver.text)

/-- what is found in the registry is what its history says -/
def Tracks (history : List Request) (registry : Registry) : Prop :=
  ∀ name dialect, registry.under name = some dialect ↔ RegisteredLast history name dialect

/-- **One request keeps a registry in step with its history.** -/
theorem tracks_serve (h : Tracks history registry) (request : Request) :
    Tracks (history ++ [request]) (registry.serve request).1 := by
  intro name dialect
  cases request with
  | register other =>
    rw [registeredLast_register, serve, under_register]
    split
    · exact Option.some_inj
    · exact h name dialect
  | reset => simp [serve, under, empty, RegisteredLast, registeredSince_concat, Request.Overwrites]
  | _ => simpa [serve, RegisteredLast, registeredSince_concat, Request.Overwrites] using h name dialect

theorem tracks_run (h : Tracks history registry) (requests : List Request) :
    Tracks (history ++ requests) (registry.run requests) := by
  induction requests generalizing history registry with
  | nil => simpa [run] using h
  | cons request requests ih =>
    have := ih (tracks_serve h request)
    rwa [List.append_assoc] at this

/-- the built-in dialects are found as if they had been registered one by one -/
theorem under_startup (name : String) : (empty.run startup).under name = builtin.under name := by
  by_cases h : ∃ driver : Driver, driver.text = name
  · obtain ⟨driver, rfl⟩ := h
    cases driver <;> rfl
  · have hnone (registry : Registry) : registry.under name = none := by
      rw [under, List.find?_eq_none]
      intro dialect _ hname
      exact h ⟨dialect.driver, by simpa using hname⟩
    rw [hnone, hnone]

theorem tracks_builtin : Tracks startup builtin := by
  have hempty : Tracks [] empty := by
    intro name dialect
    simp [under, empty, RegisteredLast, not_registeredSince_nil]
  intro name dialect
  rw [← under_startup]
  exact tracks_run hempty startup name dialect

/-! ## The map -/

/-- the record of an unknown name that the reference dialect stands in for -/
def fallbackRecord (e : UnsupportedDialect) : Record :=
  ⟨.dialect, .warning, e.message ++ "; falling back to '" ++ Driver.reference.text ++ "'"⟩

/-- the registry tells of every name what its history says of it -/
structure LastWriteWins (history : List Request) (registry : Registry) : Prop where
  sorted : registry.available.Pairwise (· < ·)
  available_iff : ∀ name, name ∈ registry.available ↔ Registered history name
  /-- a name is known in any case of its letters -/
  known_iff : ∀ name, (∃ dialect, registry.get name = .ok dialect) ↔ Text.lowercase name ∈ registry.available
  last : ∀ name dialect, registry.get name = .ok dialect →
    RegisteredLast history (Text.lowercase name) dialect ∧ dialect.driver.text = Text.lowercase name
  spelled : ∀ name dialect, registry.get name = .ok dialect →
    name.toList.map Char.toLower = dialect.driver.text.toList
  /-- a name that is not known is given back with those that are, and nothing else happens -/
  refused : ∀ name, Text.lowercase name ∉ registry.available →
    registry.serve (.get name) = (registry, .found (.error ⟨name, registry.available⟩))
  resolved : ∀ name dialect, registry.get name = .ok dialect →
    registry.serve (.resolve (.named name)) = (registry, .resolved (pure dialect))
  /-- what stands in for an unknown name, with one warning -/
  fallback : ∀ name, Text.lowercase name ∉ registry.available →
    (registry.resolve (.named name)).events = [.log (fallbackRecord ⟨name, registry.available⟩)] ∧
    (∀ dialect, (registry.resolve (.named name)).outcome = .ok dialect ↔
      RegisteredLast history Driver.reference.text dialect) ∧
    (∀ e, (registry.resolve (.named name)).outcome = .error e ↔
      Driver.reference.text ∉ registry.available ∧ e = ⟨Driver.reference.text, registry.available⟩)
  given : ∀ dialect, registry.serve (.resolve (.given dialect)) = (registry, .resolved (pure dialect))

theorem Tracks.mem_available_iff (h : Tracks history registry) : name ∈ registry.available ↔ Registered history name := by
  rw [Registry.mem_available_iff, registered_iff]
  exact exists_congr (h name)

theorem Tracks.get_eq_ok_iff (h : Tracks history registry) :
    registry.get name = .ok dialect ↔ RegisteredLast history (Text.lowercase name) dialect := by
  rw [← h, get]
  cases registry.under (Text.lowercase name) <;> simp

/-- a name that is not available is refused, and no other -/
theorem get_eq_error_iff {e : UnsupportedDialect} : registry.get name = .error e ↔
    Text.lowercase name ∉ registry.available ∧ e = ⟨name, registry.available⟩ := by
  rw [mem_available_iff, get]
  cases registry.under (Text.lowercase name) <;> simp [eq_comm]

theorem resolve_named (registry : Registry) (name : String) : registry.resolve (.named name) =
    match registry.get name with
    | .ok dialect => pure dialect
    | .error e => ⟨[.log (fallbackRecord e)], registry.get Driver.reference.text⟩ := by
  rw [resolve]
  cases registry.get name with
  | ok dialect => rfl
  | error e => rfl

theorem Tracks.lastWriteWins (h : Tracks history registry) : LastWriteWins history registry := by
  have hreference : Text.lowercase Driver.reference.text = Driver.reference.text := by decide +kernel
  have hmissing (name : String) (hn : Text.lowercase name ∉ registry.available) :
      registry.get name = .error ⟨name, registry.available⟩ := get_eq_error_iff.2 ⟨hn, rfl⟩
  refine
    { sorted := sorted_available registry
      available_iff := fun name => h.mem_available_iff
      known_iff := fun name => ?_
      last := fun name dialect hget => ⟨h.get_eq_ok_iff.1 hget, (h.get_eq_ok_iff.1 hget).1⟩
      spelled := fun name dialect hget => Driver.toLower_of_lowercase (h.get_eq_ok_iff.1 hget).1.symm
      refused := fun name hn => by rw [serve, hmissing name hn]
      resolved := fun name dialect hget => by rw [serve, resolve_named, hget]
      fallback := fun name hn => ?_
      given := fun dialect => rfl }
  · rw [h.mem_available_iff, registered_iff]
    exact exists_congr fun dialect => h.get_eq_ok_iff
  · rw [resolve_named, hmissing name hn]
    refine ⟨rfl, fun dialect => ?_, fun e => ?_⟩
    · rw [h.get_eq_ok_iff, hreference]
    · rw [get_eq_error_iff, hreference]

/-- **The registry is a map in which the last write wins**, after every run of registrations and resets, whatever was
asked in between. -/
theorem lastWriteWins_run (requests : List Request) :
    LastWriteWins (startup ++ requests) (builtin.run requests) :=
  (tracks_run tracks_builtin requests).lastWriteWins

example : (builtin.run [.reset, .register Dialect.sqlite, .register Dialect.pgsql]).available = ["pgsql", "sqlite"] := by
  decide

end Registry

end SqlDialects
