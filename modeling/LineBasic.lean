import LineBasic.Text.Bytes
import LineBasic.Text.Glyph
import LineBasic.Text.CharClass
import LineBasic.Text.Blank
import LineBasic.Text.Letter
import LineBasic.Text.Lines
import LineBasic.Decimal
import LineBasic.Fault
import LineBasic.Value
import LineBasic.Token
import LineBasic.Expr.Basic
import LineBasic.Expr.Parser
import LineBasic.Expr.Eval
import LineBasic.Table
import LineBasic.Env
import LineBasic.Stmt.Basic
import LineBasic.Stmt.Parser
import LineBasic.Stmt.Execute
import LineBasic.Command
import LineBasic.Console.Input
import LineBasic.Console.Statistics
import LineBasic.Console.Dump
import LineBasic.Console.Help
import LineBasic.Console.Display
import LineBasic.Console.Event
import LineBasic.Console.Alarm
import LineBasic.Program
import LineBasic.Session.Basic
import LineBasic.Session.Run
import LineBasic.Session.Submit
import LineBasic.Machine
import LineBasic.Interpreter.Console
import LineBasic.Interpreter.Basic
import LineBasic.CommandLine.Options
import LineBasic.CommandLine.Path
import LineBasic.CommandLine.Folder
import LineBasic.CommandLine.Tool
import LineBasic.Main
import LineBasic.Proofs.Text.Encoding
import LineBasic.Proofs.Text.Glyph
import LineBasic.Proofs.Text.Squeeze
import LineBasic.Proofs.Token
import LineBasic.Proofs.Expr.Grammar
import LineBasic.Proofs.Expr.Reader
import LineBasic.Proofs.Expr.Printer
import LineBasic.Proofs.Stmt.Parser
import LineBasic.Proofs.Table
import LineBasic.Proofs.Program
import LineBasic.Proofs.Session.Frame
import LineBasic.Proofs.Session.Pass
import LineBasic.Proofs.Session.Operation
import LineBasic.Proofs.OrderedStore
import LineBasic.Proofs.Session.Submit
import LineBasic.Proofs.Session.Run
import LineBasic.Proofs.Session.Request
import LineBasic.Proofs.Session.Outcome
import LineBasic.Proofs.Refusal
import LineBasic.Proofs.Store
import LineBasic.Proofs.Cursor
import LineBasic.Proofs.Machine
import LineBasic.Proofs.Start
import LineBasic.Proofs.Counter
import LineBasic.Proofs.Reload
import LineBasic.Proofs.LastEntry
import LineBasic.Proofs.Clear
import LineBasic.Proofs.Interpreter
import LineBasic.Proofs.Tool
import LineBasic.Proofs.Display
import LineBasic.Proofs.Names
import LineBasic.Proofs.Session.Variables
import LineBasic.Proofs.Scope
import LineBasic.Proofs.History
import LineBasic.Proofs.Reserved
import LineBasic.Proofs.Interrupt
import LineBasic.Proofs.ProgramFile
import LineBasic.Proofs.Jump
import LineBasic.Proofs.Renumber
import LineBasic.Proofs.Remark
import LineBasic.Proofs.Forward
import LineBasic.Proofs.Ending
import LineBasic.Proofs.Expr.Report
import LineBasic.Proofs.Expr.Exact
import LineBasic.Proofs.Expr.Failure
import LineBasic.Proofs.Effect
import LineBasic.Proofs.Inquiry
import LineBasic.Proofs.Layout
import LineBasic.Proofs.Respacing
import LineBasic.Proofs.Expr.Queue
import LineBasic.Proofs.Conversation
import LineBasic.Proofs.Numeral
