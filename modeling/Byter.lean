import Byter.Transition.Run
import Byter.Transition.Potential
import Byter.Transition.Simulation
import Byter.Population.Turnover
import Byter.Episode.Basic
import Byter.Scanner.Basic
import Byter.Text.Basic
import Byter.Sketch.Memory
import Byter.Sketch.Eeprom
import Byter.Sketch.Frame
import Byter.Sketch.Parser
import Byter.Sketch.Loop
import Byter.Sketch.Steps
import Byter.Sketch.Call
import Byter.Sketch.Lines
import Byter.Counting.Exact
import Byter.Counting.Rollover
import Byter.Counting.History
import Byter.Counting.Loss
import Byter.Counting.Ghost
import Byter.Counting.OutOfRange
import Byter.Stream.Frame
import Byter.Stream.Resync
import Byter.Stream.RoundTrip
import Byter.Stream.Soundness
import Byter.System.Ledger
import Byter.System.Atomic
import Byter.System.Latch
import Byter.System.Events
import Byter.System.Progress
import Byter.Storage.Core
import Byter.Storage.Reports
import Byter.System.Persistence
import Byter.System.Requests
import Byter.System.Screen
import Byter.System.Button
import Byter.System.Visible
import Byter.Panel.Reading
import Byter.Panel.Transfer
import Byter.Web.Wire
