import MyOS.Heap.Theorems
import MyOS.Lib.Chain
import MyOS.Fat.Theorems
import MyOS.Fat.DirTheorems
import MyOS.Proc.SignalTheorems
import MyOS.Proc.TrapTheorems
import MyOS.Proc.PipeTheorems
import MyOS.Proc.TreeTheorems
import MyOS.Proc.WaitTheorems
import MyOS.Lib.Count
import MyOS.Lib.Linked
import MyOS.Proc.Lemmas.Nap
import MyOS.Proc.SleepTheorems
import MyOS.Proc.WaitpidTheorems
import MyOS.Fat.Lemmas.Entry
import MyOS.Fat.Lemmas.Mkdir
import MyOS.Fat.Lemmas.Moves
import MyOS.Fat.Lemmas.Size
import MyOS.Fat.OpenTheorems
import MyOS.Fat.SizeTheorems
import MyOS.Mem.ForkTheorems
import MyOS.Proc.DeliverTheorems
import MyOS.Proc.ForkTheorems
import MyOS.Proc.SelectTheorems
import MyOS.Proc.StackTheorems
import MyOS.Mem.Lemmas.Areas
import MyOS.Mem.Lemmas.Regions
import MyOS.Mem.VmmTheorems
import MyOS.Proc.Lemmas.Shell
import MyOS.Proc.ShellTheorems
import MyOS.Fat.CreateTheorems
import MyOS.Fat.ReadTheorems
import MyOS.Fat.FailTheorems
import MyOS.Fat.Init
import MyOS.Fat.InitTheorems
import MyOS.Lib.Components
import MyOS.Vfs.Lemmas.Path
import MyOS.Vfs.Node
import MyOS.Vfs.NodeTheorems
import MyOS.Vfs.PathTheorems
import MyOS.Fat.FlushTheorems
import MyOS.Fat.NameTheorems
import MyOS.Blocks.AllocTheorems
import MyOS.Blocks.BootTheorems
import MyOS.Mem.BlockTheorems
import MyOS.Mem.MmapTheorems
import MyOS.Vfs.Initrd
import MyOS.Vfs.StdioTheorems
import MyOS.Heap.SizeTheorems
import MyOS.Mem.PageTheorems
import MyOS.Heap.MappedTheorems
import MyOS.Vfs.CallTheorems
import MyOS.Vfs.ImageTheorems
import MyOS.Mem.UserCopyTheorems
import MyOS.Vfs.ReaddirTheorems
import MyOS.Mem.MmapPageTheorems
import MyOS.Mem.SbrkTheorems
import MyOS.Elf.RelocTheorems
import MyOS.Elf.SharedTheorems
import MyOS.Elf.LinkTheorems
import MyOS.Elf.AppTheorems
import MyOS.Drivers.MouseTheorems
import MyOS.Libc.Strtok
import MyOS.Proc.FileTheorems
import MyOS.Proc.ExecTheorems
import MyOS.Proc.ArgTheorems
import MyOS.Proc.JobTheorems
import MyOS.Apps.ParseTheorems
import MyOS.Libc.PrintTheorems
import MyOS.Kilb.PrintTheorems
import MyOS.Libc.StdlibTheorems
import MyOS.Kilb.NumberTheorems
import MyOS.Vfs.PathBufferTheorems
import MyOS.Drivers.VgaTheorems
import MyOS.Proc.EndTheorems
import MyOS.Proc.FairTheorems
import MyOS.Fat.RemountTheorems
import MyOS.Drivers.AtaTheorems
import MyOS.Drivers.KbdTheorems
import MyOS.Apps.ReadLineTheorems
import MyOS.Mem.FreeTheorems
import MyOS.Proc.PipelineTheorems
import MyOS.Apps.Piped
import MyOS.Apps.Hexdump
import MyOS.Gfx.GraphicsTheorems
import MyOS.Libc.Atoi
