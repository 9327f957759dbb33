import EventMetrics.Config
import EventMetrics.Definition.Reader

namespace EventMetrics

open Toml (text? instant? word? span? listOf? choice? record? orDefault optional)

def Toml.textTable? : Toml → Option (Table String String)
  | .table entries =>
    (entries.mapM fun e => (text? e.2).map (e.1, ·)).map Table.ofList
  | _ => none

def Retry.ofToml? (v : Toml) : Option Retry := do
  let entries ← record? false ["max_attempts", "initial_backoff", "max_backoff"] v
  let base : Retry := {}
  let attempts ← orDefault "max_attempts" base.attempts (word? 32) entries
  let initialBackoff ← orDefault "initial_backoff" base.initialBackoff span? entries
  let maxBackoff ← orDefault "max_backoff" base.maxBackoff span? entries
  some { attempts, initialBackoff, maxBackoff }

def Hosting.ofToml? (v : Toml) : Option Hosting := do
  let entries ← record? false
    ["pipeline_queue", "output_queue", "dimension_hard_limit", "start_time", "tick_interval",
      "sink_retry"] v
  let base : Hosting := {}
  let inputQueue ← orDefault "pipeline_queue" base.inputQueue (word? 64) entries
  let outputQueue ← orDefault "output_queue" base.outputQueue (word? 64) entries
  let dimensionLimit ← orDefault "dimension_hard_limit" base.dimensionLimit (word? 64) entries
  let start ← optional "start_time" instant? entries
  let tickInterval ← orDefault "tick_interval" base.tickInterval span? entries
  let retry ← orDefault "sink_retry" base.retry Retry.ofToml? entries
  some { inputQueue, outputQueue, dimensionLimit, start, tickInterval, retry }

def Logging.ofToml? (v : Toml) : Option Logging := do
  let entries ← record? false ["level", "modules", "file", "format"] v
  let base : Logging := {}
  let level ← orDefault "level" base.level text? entries
  let modules ← orDefault "modules" base.modules Toml.textTable? entries
  let file ← optional "file" text? entries
  let format ←
    orDefault "format" base.format (choice? .nameOrEmpty LogFormat.name [.plain, .json]) entries
  some { level, modules, file := file.map Path.mk, format }

def sinksOfToml? (v : Toml) : Option (List String) := do
  let entries ← record? false ["sinks"] v
  let base : Config := {}
  orDefault "sinks" base.sinks (listOf? text?) entries

def Config.sections : List String := ["include", "runtime", "logging", "output"]

def Config.ofEntries? (entries : List (String × Toml)) : Option (Config × List String) := do
  let includes ← orDefault "include" [] (listOf? text?) entries
  let base : Config := {}
  let hosting ← orDefault "runtime" base.hosting Hosting.ofToml? entries
  let logging ← orDefault "logging" base.logging Logging.ofToml? entries
  let sinks ← orDefault "output" base.sinks sinksOfToml? entries
  let rest := entries.filter (·.1 ∉ Config.sections)
  if !Toml.fitWords rest then none
  let definitions ← Definitions.ofEntries? true rest
  some ({ hosting, logging, sinks, definitions }, includes)

end EventMetrics
