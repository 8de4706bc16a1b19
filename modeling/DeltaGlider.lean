import DeltaGlider.Text
import DeltaGlider.Models
import DeltaGlider.Ports
import DeltaGlider.Run
import DeltaGlider.Exec
import DeltaGlider.Service.Put
import DeltaGlider.Service.Get
import DeltaGlider.Service.Delete
import DeltaGlider.Service.Rehydrate
import DeltaGlider.System
import DeltaGlider.App.Cli
import DeltaGlider.Stats.Aggregate
import DeltaGlider.Stats.Collect
import DeltaGlider.Properties.RoundTrip
import DeltaGlider.Properties.Integrity
import DeltaGlider.Properties.Keys
import DeltaGlider.Properties.Cleanup
import DeltaGlider.Properties.GoodStore
import DeltaGlider.Concurrent
import DeltaGlider.Properties.Races
import DeltaGlider.Properties.DeleteRace
import DeltaGlider.Properties.Faults
import DeltaGlider.Properties.Statistics
import DeltaGlider.Properties.Purge
import DeltaGlider.Properties.Recovery
import DeltaGlider.Properties.Refinement
import DeltaGlider.Properties.CommandLine
import DeltaGlider.Properties.Commands
import DeltaGlider.Properties.ReadRace
import DeltaGlider.Properties.DeletePair
