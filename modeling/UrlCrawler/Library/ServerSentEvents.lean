import UrlCrawler.Library.Splitting
import Mathlib.Data.List.TakeDrop

/-! # Event streams as text

The `text/event-stream` format as far as events of a name and one line of data need it. A reader
takes the lines that have been ended; an empty line dispatches what has been gathered since the last
one. What is written is read back, and of a stream that is cut off its first events (`read_of_start`).
-/
set_option autoImplicit false

namespace ServerSentEvents
open Splitting

/-- An event: its name and its data. -/
structure Event where
  name : List Char
  data : List Char
deriving DecidableEq

def Event.lines (event : Event) : List (List Char) :=
  ["event: ".toList ++ event.name, "data: ".toList ++ event.data, []]

def Event.text (event : Event) : List Char := event.lines.flatMap (· ++ ['\n'])

/-- The value of a field, if that is what the line is. -/
def fieldValue (field line : List Char) : Option (List Char) :=
  if (field ++ [':', ' ']).isPrefixOf line then some (line.drop (field.length + 2)) else none

/-- The events that are dispatched, with what has been gathered of the next one. -/
def dispatch (gathered : Event) : List (List Char) → List Event
  | [] => []
  | [] :: lines => gathered :: dispatch ⟨[], []⟩ lines
  | line :: lines =>
    match fieldValue "event".toList line, fieldValue "data".toList line with
    | some name, _ => dispatch { gathered with name } lines
    | none, some data => dispatch { gathered with data } lines
    | none, none => dispatch gathered lines

/-- The events of a stream as far as it has come. -/
def read (stream : List Char) : List Event := dispatch ⟨[], []⟩ (ended '\n' stream)

theorem dispatch_lines (gathered event : Event) (lines : List (List Char)) :
    dispatch gathered (event.lines ++ lines) = event :: dispatch ⟨[], []⟩ lines := rfl

/-- Events that are written are read back. -/
theorem dispatch_flatMap (events : List Event) :
    dispatch ⟨[], []⟩ (events.flatMap Event.lines) = events := by
  induction events with
  | nil => rfl
  | cons event events ih =>
    rw [List.flatMap_cons, dispatch_lines, ih]

/-- Fewer lines dispatch fewer events, the first ones. -/
theorem dispatch_of_start (gathered : Event) {lines more : List (List Char)} (h : lines <+: more) :
    dispatch gathered lines <+: dispatch gathered more := by
  induction lines generalizing gathered more with
  | nil => exact List.nil_prefix
  | cons line lines ih =>
    obtain ⟨rest, rfl⟩ := h
    have hrest : lines <+: lines ++ rest := List.prefix_append lines rest
    rw [List.cons_append]
    cases line with
    | nil => exact (List.prefix_cons_inj gathered).mpr (ih _ hrest)
    | cons c line =>
      rw [dispatch, dispatch]
      · split
        · exact ih _ hrest
        · exact ih _ hrest
        · exact ih _ hrest
      · exact List.cons_ne_nil c line
      · exact List.cons_ne_nil c line

/-- Name and data are one line each. -/
def Event.OneLine (event : Event) : Prop := '\n' ∉ event.name ∧ '\n' ∉ event.data

theorem Event.OneLine.lines {event : Event} (h : event.OneLine) : ∀ line ∈ event.lines, '\n' ∉ line := by
  intro line hline
  simp only [Event.lines, List.mem_cons, List.not_mem_nil, or_false] at hline
  obtain rfl | rfl | rfl := hline
  · rw [List.mem_append, not_or]
    exact ⟨by decide, h.1⟩
  · rw [List.mem_append, not_or]
    exact ⟨by decide, h.2⟩
  · exact List.not_mem_nil

theorem ended_text {events : List Event} (h : ∀ event ∈ events, event.OneLine) :
    ended '\n' (events.flatMap Event.text) = events.flatMap Event.lines := by
  have hlines : ∀ line ∈ events.flatMap Event.lines, '\n' ∉ line := by
    intro line hline
    obtain ⟨event, hevent, hline⟩ := List.mem_flatMap.mp hline
    exact (h event hevent).lines line hline
  have htext : events.flatMap Event.text = (events.flatMap Event.lines).flatMap (· ++ ['\n']) := by
    rw [List.flatMap_assoc]
    rfl
  rw [htext]
  exact ended_pieces hlines

theorem read_text {events : List Event} (h : ∀ event ∈ events, event.OneLine) :
    read (events.flatMap Event.text) = events := by
  rw [read, ended_text h, dispatch_flatMap]

theorem read_of_start {events : List Event} (h : ∀ event ∈ events, event.OneLine)
    {stream : List Char} (hcut : stream <+: events.flatMap Event.text) : read stream <+: events := by
  have hread := dispatch_of_start ⟨[], []⟩ (ended_of_start '\n' hcut)
  rw [ended_text h, dispatch_flatMap] at hread
  exact hread

end ServerSentEvents
