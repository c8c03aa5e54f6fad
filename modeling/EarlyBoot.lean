import EarlyBoot.BootInfo.Contents
import EarlyBoot.BootInfo.Slots
import EarlyBoot.Main
import EarlyBoot.Register.Rflags
import EarlyBoot.Screen.Script
import EarlyBoot.Screen.Sheet
import EarlyBoot.Startup.Machine
import EarlyBoot.WriteOnce.Interleaving
import EarlyBoot.Proofs.Iteration.Draws
import EarlyBoot.Proofs.Tag.Calls
import EarlyBoot.Proofs.Tag.Cursor
import EarlyBoot.Proofs.Region.Copied
import EarlyBoot.Proofs.Region.RoundTrip
import EarlyBoot.Proofs.Record.Entries
import EarlyBoot.Proofs.Record.Texts
import EarlyBoot.Proofs.Memory.Counted
import EarlyBoot.Proofs.BootInfo.Looser
import EarlyBoot.Proofs.BootInfo.Outcome
import EarlyBoot.Proofs.BootInfo.Reachable
import EarlyBoot.Proofs.BootInfo.Reordered
import EarlyBoot.Proofs.BootInfo.RoundTrip
import EarlyBoot.Proofs.BootInfo.Shortened
import EarlyBoot.Proofs.BootInfo.Unread
import EarlyBoot.Proofs.Screen.Filled
import EarlyBoot.Proofs.Screen.Narrow
import EarlyBoot.Proofs.Screen.Report
import EarlyBoot.Proofs.Screen.Scrolled
import EarlyBoot.Proofs.Screen.Slice
import EarlyBoot.Proofs.Screen.Window
import EarlyBoot.Proofs.Startup.Borrowed
import EarlyBoot.Proofs.Startup.Shown
import EarlyBoot.Proofs.WriteOnce.Published
import EarlyBoot.Proofs.BootInfo.Account
import EarlyBoot.Proofs.Pixel.Channels
import EarlyBoot.Proofs.Inspector.Inspected
import EarlyBoot.Proofs.Region.Verdict
import EarlyBoot.Proofs.BootInfo.Tabulated
import EarlyBoot.Proofs.Register.Fields
import EarlyBoot.Proofs.DebugConsole.Carried
import EarlyBoot.Proofs.Text.Wording
